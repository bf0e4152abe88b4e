/-
  `ServeHTTP` of `repeater/repeater.go` as a program: what one request asks of the things it shares
  with the requests that are served at the same time.

  Shared are the cache and the connection of `dbCache`, the table of instances, and the statistics.
  The cache, the table and the statistics have a lock each, and `queryDB` and `dbQuery` hold the
  lock of `dbCache`, so these are the calls of a program (`Call`) and everything else is its own.
  `Cache.Get` takes its lock twice, to evict and to look up, and so is two calls.
  Between two calls anything may happen: the tables change, the connection breaks, instances come
  and go, the statistics are drained. A statement is read from `dbCache` before `queryDB` has the
  lock. The clock is read inside a call and may show anything. The rows of a query are read after
  it, and `rows.Err` is never asked: a connection that breaks there turns a row into `errNotFound`,
  and a list of variables into the first ones of it.

  `World.past` (the tables so far), `World.sent` (the requests handed to a backend), `World.cuts`
  (the interfaces whose variables were read short) and the two lists of drained statistics are
  there for the theorems only.
-/
import Doodle.Lib.Threads
import Doodle.Repeater.Sent
import Doodle.Repeater.Stats

namespace Doodle.Repeater.Serve

open Doodle.Go Doodle.Crab Doodle.Lib Doodle.Util

/-! ## Calls -/

/-- A request that a backend was asked, and what came of it. -/
structure Forwarded where
  session : String
  message : Message
  app : Application
  iface : Interface
  out : Validation.Sent
  answer : Except String (List UInt8 × Int)

inductive Call where
  | cacheEvict
  | cacheLookup (key : String)
  | cacheAdd (key : String) (val : Val)
  | stmt (n : StmtName)
  | selService (s : Option Stmt) (path : String)
  | selIface (s : Option Stmt) (serviceID : Int) (path : String)
  | selApp (s : Option Stmt) (id : Int) (token : String)
  | selRelation (s : Option Stmt) (appID ifaceID : Int)
  | selVar (id : Int)
  | getMicroAPPs (name : String)
  | unixNano
  | doRequest (session : String) (message : Message) (app : Application) (iface : Interface)
      (out : Validation.Sent)
  | success (app iface : Int) (tm : BitVec 64)
  | failed (id : String) (app iface : Int) (log : String)

/-- What a call returns. -/
abbrev Ans : Call → Type
  | .cacheEvict => Unit
  | .cacheLookup _ => Option Val
  | .cacheAdd _ _ => Unit
  | .stmt _ => Option Stmt
  | .selService _ _ => Res Err Service
  | .selIface _ _ _ => Res Err (Int × Int × String × String)
  | .selApp _ _ _ => Res Err (String × String)
  | .selRelation _ _ _ => Res Err Int
  | .selVar _ => Res Err (List VariableRow)
  | .getMicroAPPs _ => Option (List Doodle.Service.MicroAPP)
  | .unixNano => Int
  | .doRequest _ _ _ _ _ => Except String (List UInt8 × Int)
  | .success _ _ _ => Unit
  | .failed _ _ _ _ => Unit

/-- What the requests share. -/
structure World where
  tables : Tables
  dc : DbCache
  apps : Apps
  stats : Stats.StatsCache
  past : List Tables
  sent : List Forwarded
  cuts : List Int
  drained : List Stats.Entry
  errors : List Stats.ErrorEntry

/-- The answer to a query for one row, which may still fail when the row is read. -/
def Asked {α : Type} (r : Res Err α × DbCache) (w : World) (a : Res Err α) (w' : World) : Prop :=
  (a = r.1 ∨ ∃ e, a = .err e) ∧ w' = { w with dc := r.2 }

/-- The answer to the query for the variables of an interface, whose rows may be cut short. -/
def AskedVars (id : Int) (r : Res Err (List VariableRow) × DbCache) (w : World)
    (a : Res Err (List VariableRow)) (w' : World) : Prop :=
  Asked r w a w' ∨ ∃ rows n, r.1 = .ok rows ∧ a = .ok (rows.take n) ∧
    w' = { w with dc := r.2, cuts := id :: w.cuts }

/-- How a call may come out. -/
def serve : (c : Call) → World → Ans c → World → Prop
  | .cacheEvict, w, _, w' => ∃ t, w' = { w with dc := { w.dc with cache := w.dc.cache.evict t } }
  | .cacheLookup key, w, a, w' => a = w.dc.cache.lookup key ∧ w' = w
  | .cacheAdd key val, w, _, w' => ∃ t,
      w' = { w with dc := { w.dc with cache := w.dc.cache.add t key val } }
  | .stmt n, w, a, w' => a = w.dc.stmt n ∧ w' = w
  | .selService s path, w, a, w' => ∃ srv,
      Asked (queryDB srv w.dc s (selService w.tables path)) w a w'
  | .selIface s id path, w, a, w' => ∃ srv,
      Asked (queryDB srv w.dc s (selIface w.tables id path)) w a w'
  | .selApp s id token, w, a, w' => ∃ srv,
      Asked (queryDB srv w.dc s (selApp w.tables id token)) w a w'
  | .selRelation s appID ifaceID, w, a, w' => ∃ srv,
      Asked (queryDB srv w.dc s (selRelation w.tables appID ifaceID)) w a w'
  | .selVar id, w, a, w' => ∃ srv,
      AskedVars id (dbQuery srv w.dc .selVar (selVar w.tables id)) w a w'
  | .getMicroAPPs name, w, a, w' => a = getMicroAPPs w.apps name ∧ w' = w
  | .unixNano, w, _, w' => w' = w
  | .doRequest session message app iface out, w, a, w' =>
      w' = { w with sent := ⟨session, message, app, iface, out, a⟩ :: w.sent }
  | .success app iface tm, w, _, w' => w' = { w with stats := w.stats.success app iface tm }
  | .failed id app iface log, w, _, w' => ∃ now,
      w' = { w with stats := w.stats.failed id app iface log now }

/-- What happens besides the requests. -/
inductive Drift (w : World) : World → Prop
  | tables (tb : Tables) : Drift w { w with tables := tb, past := tb :: w.past }
  | connection (dc : DbCache) : dc.cache = w.dc.cache → Drift w { w with dc := dc }
  | instances (apps : Apps) : Drift w { w with apps := apps }
  | entrys (ifaces : List Int) (apps : Int → List Int) : w.stats.Ranges ifaces apps →
      Drift w { w with
        stats := (w.stats.entrys ifaces apps).2
        drained := w.drained ++ (w.stats.entrys ifaces apps).1 }
  | errorEntrys : Drift w { w with
      stats := w.stats.errorEntrys.2, errors := w.errors ++ w.stats.errorEntrys.1 }

def rules : Rules Ans World := ⟨serve, Drift⟩

/-- The gateway before the first request, on whatever connection. -/
def start (tb : Tables) (dc : DbCache) (apps : Apps) : World :=
  ⟨tb, { dc with cache := newCache dc.cache.timeout }, apps, Stats.newStatsCache, [tb], [], [], [],
    []⟩

/-! ## The program of a request -/

abbrev P (α : Type) := Prog Ans α

variable {α β : Type}

/-- `if err != nil { return err }` -/
def andThen (p : P (Res Err α)) (f : α → P (Res Err β)) : P (Res Err β) :=
  p >>= fun r => match r with
    | .ok a => f a
    | .err e => .done (.err e)
    | .panic why => .done (.panic why)

/-- A cached lookup, as `lookupVia`. -/
def lookup (key : String) (cast : Val → Option β) (miss : P (Res Err (β × Val))) : P (Res Err β) :=
  .ask .cacheEvict fun _ => .ask (.cacheLookup key) fun v => match v with
    | some v => .done (match cast v with
      | some b => .ok b
      | none => .panic "interface conversion")
    | none => andThen miss fun r => .ask (.cacheAdd key r.2) fun _ => .done (.ok r.1)

def getApplication (id : Int) (token : String) : P (Res Err Application) :=
  lookup (appKey id) Val.app? <|
    .ask (.stmt .selApp) fun s => .ask (.selApp s id token) fun r => .done <|
      r.bind fun r => .ok (⟨id, r.1, r.2⟩, Val.app ⟨id, r.1, r.2⟩)

def getApp (C : Crypto) (token : String) : P (Res Err Application) :=
  match aesDecrypt C token aesKey with
  | .err e => .done (.err (.invalidToken e))
  | .panic why => .done (.panic why)
  | .ok buf =>
    if (varint buf).2 < 1 then .done (.err (.text ("invalid token " ++ token)))
    else getApplication (varint buf).1 token

/-- What `dbCache.getInterface` does when the cache has nothing under `key`. -/
def interfaceMiss (key : String) : P (Res Err (Interface × Val)) :=
  match split key '/' with
  | _ :: p1 :: p2 :: _ =>
    .ask (.stmt .selService) fun s =>
      andThen (Prog.call (Call.selService s p1)) fun p =>
        let path := ifacePath p.version key p1 p2
        .ask (.stmt .selIface) fun s => .ask (.selIface s p.id path) fun r => .done <|
          r.bind fun (id, method, backend, email) =>
            .ok (⟨id, method, backend, email, path, p⟩,
              Val.iface ⟨id, method, backend, email, path, p⟩)
  | _ => .done (.err .invalidPath)

/-- `dbCache.getInterface` -/
def cachedInterface (key : String) : P (Res Err Interface) :=
  lookup key Val.iface? (interfaceMiss key)

def validateRelation (appID ifaceID : Int) : P (Res Err Unit) :=
  lookup (relationKey appID ifaceID) (fun _ => some ()) <|
    .ask (.stmt .selRelation) fun s => .ask (.selRelation s appID ifaceID) fun r => .done <|
      r.bind fun id => .ok ((), Val.relation id)

def getVariable (id : Int) : P (Res Err (List Variable)) :=
  lookup (varKey id) Val.vars? <| .ask (.selVar id) fun r => .done (r.bind varsOf)

/-- The permission of the application, asked for only when the service wants it. -/
def permit (app : Application) (iface : Interface) : P (Res Err (Application × Interface)) :=
  if iface.service.validate = false then .done (.ok (app, iface))
  else
    validateRelation app.id iface.id >>= fun r => .done <| match r with
      | .ok () => .ok (app, iface)
      | .err .notFound => .err .forbidden
      | .err e => .err e
      | .panic why => .panic why

/-- `repeater.GetInterface` -/
def getInterface (C : Crypto) (m : Message) : P (Res Err (Application × Interface)) :=
  let token := firstValue (m.header "Token")
  if token = "" then .done (.err (.text "need Token in Header"))
  else
    andThen (getApp C token) fun app =>
      andThen (cachedInterface m.path.text) fun iface =>
        if iface.method ≠ restful ∧ m.method ≠ methodString iface.method then
          .done (.err (.text
            ("invalid method:" ++ m.method ++ ", need:" ++ methodString iface.method)))
        else permit app iface

/-- `Validate`, and the request after it. -/
def validate (H : NetHttp) (iface : Interface) (m : Message) : P (Res Err HttpRequest) :=
  andThen (getVariable iface.id) fun vars =>
    .done ((Validation.validateWith H vars m.received).1.bind fun _ =>
      .ok (Validation.validateWith H vars m.received).2)

def buildRequest (N : NetUrl) (gitTime id : String) (iface : Interface) (req : HttpRequest) :
    P (Res Err Validation.Sent) :=
  if iface.service.version = 1 then
    .ask (.getMicroAPPs iface.backend) fun apps => match apps with
      | none => .done (.err .notFound)
      | some apps => .ask .unixNano fun now =>
        .done (Validation.buildRequest N gitTime (fun _ => some apps) now id iface req)
  else .done (Validation.buildRequest N gitTime Apps.empty 0 id iface req)

/-- What the client is sent, besides the session in a header. -/
inductive Reply where
  /-- nothing is written -/
  | silent
  | status (code : Int)
  /-- a status and the text of the error -/
  | text (code : Int) (e : Err)
  /-- `util.SendResponse`: the status is in the body -/
  | json (status : Int) (e : Err)
  /-- the same with status 400, for a panic that was recovered; the text is put in brackets, as
      the arguments are passed on to `Sprintf` as one -/
  | recovered (why : String)
  | backend (code : Int) (body : List UInt8)

/-- `int64(time.Since(b) / time.Millisecond)` -/
def millis (b now : Int) : BitVec 64 := BitVec.ofInt 64 ((now - b).tdiv 1000000)

/-- From the call of the backend on. -/
def forward (id : String) (m : Message) (app : Application) (iface : Interface)
    (out : Validation.Sent) : P Reply :=
  .ask .unixNano fun b => .ask (.doRequest id m app iface out) fun a => .ask .unixNano fun now =>
    match a with
    | .error e => .ask (.failed id app.id iface.id e) fun _ => .done (.json 500 (.text e))
    | .ok (rb, code) =>
      if code ≠ 200 then
        .ask (.failed id app.id iface.id ("invalid http status:" ++ toString code)) fun _ =>
          .done (.backend code rb)
      else .ask (.success app.id iface.id (millis b now)) fun _ => .done (.backend code rb)

/-- The outcome of one part of `ServeHTTP`: an error is answered, a panic is recovered. -/
def orReply (p : P (Res Err α)) (onErr : Err → Reply) (f : α → P Reply) : P Reply :=
  p >>= fun r => match r with
    | .ok a => f a
    | .err e => .done (onErr e)
    | .panic why => .done (.recovered why)

/-- The answer to a request that was not let in. -/
def refusal : Err → Reply
  | .forbidden => .status 403
  | e => .text 500 e

/-- `ServeHTTP`, where `id` is what `uuid.String` returned. -/
def serveHTTP (C : Crypto) (N : NetUrl) (H : NetHttp) (gitTime id : String) (m : Message) :
    P Reply :=
  match m.bodyErr with
  | some _ => .done .silent
  | none =>
    orReply (getInterface C m) refusal fun (app, iface) =>
      orReply (validate H iface m) (.json 400) fun req =>
        orReply (buildRequest N gitTime id iface req) (.json 500) fun out =>
          forward id m app iface out

end Doodle.Repeater.Serve
