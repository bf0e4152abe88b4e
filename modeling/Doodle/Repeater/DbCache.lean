/-
  `dbCache` of `repeater/cache.go`: the gateway's prepared statements, its two retry loops, and the
  four lookups that go through the shared cache.

  The MySQL server is `Server`: whether it answers the n-th request the driver sends it. A
  connection is known by its number, a prepared statement by its name and the connection that
  prepared it; `sql.Stmt.Query` on a nil statement panics, on a closed one or one of a closed
  connection it returns an error. The rows a statement selects are functions of the tables
  (`selService` and so on), in the order the server scans a table. Texts are compared by their
  weight in the server's collation: under `utf8_general_ci` the paths `p` and `P` are one.

  `queryDB` is the source's loop: at most `maxRetry` rounds, in each a query when a connection
  is open and a reconnect when none is. `queryDB_live` is what it comes to while the server
  answers and the statements belong to the open connection (`Live`): the first row selected,
  or `errNotFound`, with nothing but the request counter changed. `dbQuery` is the other loop,
  which reconnects after every failed call; `dbQuery_live` is its counterpart.
-/
import Doodle.Go.Result
import Doodle.Go.Strconv
import Doodle.Go.Strings
import Doodle.Crab.Cache

namespace Doodle.Repeater

open Doodle.Go Doodle.Crab

/-! ## Tables and values -/

/-- A row of `service`. -/
structure ServiceRow where
  id : Int
  path : String
  validate : Bool
  version : Int
  deriving DecidableEq, Repr

/-- A row of `interface`. -/
structure InterfaceRow where
  id : Int
  serviceID : Int
  path : String
  method : Int
  backend : String
  email : String
  deriving DecidableEq, Repr

/-- A row of `application`. -/
structure ApplicationRow where
  id : Int
  name : String
  email : String
  token : String
  deriving DecidableEq, Repr

/-- A row of `relation`. -/
structure RelationRow where
  id : Int
  applicationID : Int
  interfaceID : Int
  deriving DecidableEq, Repr

/-- `meta.Variable`, the fields the gateway fills. -/
structure Variable where
  postion : Int
  name : String
  type : String
  required : Bool
  deriving DecidableEq, Repr

/-- A row of `variable`; the manager stores any number as `required`. -/
structure VariableRow where
  interfaceID : Int
  postion : Int
  name : String
  type : String
  required : Int
  deriving DecidableEq, Repr

/-- The tables the gateway reads, each in the order the server scans it, and the weight by which
    it compares texts. -/
structure Tables where
  weight : String → String
  service : List ServiceRow
  interface : List InterfaceRow
  application : List ApplicationRow
  relation : List RelationRow
  vars : List VariableRow

/-- `meta.Service`, the fields the gateway fills. -/
structure Service where
  id : Int
  validate : Bool
  version : Int
  deriving DecidableEq, Repr

/-- `meta.Interface`, the fields the gateway fills. -/
structure Interface where
  id : Int
  method : Int
  backend : String
  email : String
  path : String
  service : Service
  deriving DecidableEq, Repr

/-- `meta.Application`, the fields the gateway fills. -/
structure Application where
  id : Int
  name : String
  email : String
  deriving DecidableEq, Repr

/-- The dynamic types the gateway puts into its one cache. -/
inductive Val where
  | iface (i : Interface)
  | relation (id : Int)
  | app (a : Application)
  | vars (vs : List Variable)
  deriving DecidableEq, Repr

/-- The error values of `repeater`, and any other error by its text. -/
inductive Err where
  | invalidPath
  | invalidToken (why : String)
  | notFound
  | forbidden
  | text (s : String)
  deriving DecidableEq, Repr

/-! ## What the prepared statements select -/

/-- `select id, validate, version from service where path=?` -/
def selService (tb : Tables) (path : String) : List Service :=
  (tb.service.filter fun r => tb.weight r.path == tb.weight path).map fun r =>
    ⟨r.id, r.validate, r.version⟩

/-- `select id, method, backend, email from interface where service_id = ? and path=?` -/
def selIface (tb : Tables) (serviceID : Int) (path : String) : List (Int × Int × String × String) :=
  (tb.interface.filter fun r =>
    r.serviceID == serviceID && tb.weight r.path == tb.weight path).map fun r =>
      (r.id, r.method, r.backend, r.email)

/-- `select name, email from application where id = ? and token=?` -/
def selApp (tb : Tables) (id : Int) (token : String) : List (String × String) :=
  (tb.application.filter fun r => r.id == id && tb.weight r.token == tb.weight token).map fun r =>
    (r.name, r.email)

/-- `select id from relation where application_id = ? and interface_id=?` -/
def selRelation (tb : Tables) (appID ifaceID : Int) : List Int :=
  (tb.relation.filter fun r => r.applicationID == appID && r.interfaceID == ifaceID).map fun r => r.id

/-- `select postion, name, type, required from variable where interface_id = ?` -/
def selVar (tb : Tables) (id : Int) : List VariableRow :=
  tb.vars.filter fun r => r.interfaceID == id

/-- `rows.Scan(&v.Postion, &v.Name, &v.Type, &v.Required)` -/
def VariableRow.scan (r : VariableRow) : Option Variable :=
  (scanBool r.required).map fun required => ⟨r.postion, r.name, r.type, required⟩

/-- The rows one after the other, until one does not scan. -/
def scanVars (rows : List VariableRow) : Option (List Variable) := rows.mapM VariableRow.scan

/-! ## Connections and statements -/

/-- Whether the server answers the n-th request of the driver. -/
abbrev Server := Nat → Bool

/-- A server that never fails. -/
def Server.Reliable (srv : Server) : Prop := ∀ n, srv n = true

inductive StmtName where
  | selService | selIface | selVar | selApp | selRelation | instStats | instErrorStats
  deriving DecidableEq, Repr

/-- The order in which `conectDB` prepares the statements. -/
def StmtName.all : List StmtName :=
  [.selService, .selIface, .selVar, .selApp, .selRelation, .instStats, .instErrorStats]

/-- A prepared statement: its name and the connection that prepared it. -/
structure Stmt where
  name : StmtName
  conn : Nat
  deriving DecidableEq, Repr

/-- `dbCache`, with the driver's bookkeeping behind `mdb`: connections opened, what has been
    closed, and the number of the next request to the server. -/
structure DbCache where
  cache : Cache Val
  dbc : Option Nat
  stmt : StmtName → Option Stmt
  opened : Nat
  closedConns : List Nat
  closedStmts : List Stmt
  tick : Nat

/-- `&dbCache{cache: cache.NewCache(timeout)}`. -/
def newDbCache (timeout : Int) : DbCache :=
  ⟨newCache timeout, none, fun _ => none, 0, [], [], 0⟩

def closeAll (dc : DbCache) : DbCache :=
  { dc with
    dbc := none
    stmt := fun _ => none
    closedConns := dc.dbc.toList ++ dc.closedConns
    closedStmts := StmtName.all.filterMap dc.stmt ++ dc.closedStmts }

/-- The `Prepare` calls of `conectDB` on connection `c`, up to the first that fails. -/
def prepareAll (srv : Server) (c : Nat) : List StmtName → DbCache → Option Err × DbCache
  | [], dc => (none, dc)
  | n :: ns, dc =>
    if srv dc.tick then
      prepareAll srv c ns
        { dc with tick := dc.tick + 1, stmt := fun m => if m = n then some ⟨n, c⟩ else dc.stmt m }
    else
      (some (.text "prepare failed"),
        { dc with tick := dc.tick + 1, stmt := fun m => if m = n then none else dc.stmt m })

/-- `conectDB`: open a connection and prepare every statement; on an error close everything. -/
def conectDB (srv : Server) (dc : DbCache) : Option Err × DbCache :=
  if srv dc.tick then
    match prepareAll srv dc.opened StmtName.all
        { dc with tick := dc.tick + 1, opened := dc.opened + 1, dbc := some dc.opened } with
    | (none, dc') => (none, dc')
    | (some e, dc') => (some e, closeAll dc')
  else (some (.text "connect failed"), closeAll { dc with tick := dc.tick + 1, dbc := none })

/-- `sql.Stmt.Query`: whether it returned rows. -/
def stmtQuery (srv : Server) (dc : DbCache) : Option Stmt → Res Err Unit × DbCache
  | none => (.panic "nil pointer dereference", dc)
  | some s =>
    if s ∈ dc.closedStmts then (.err (.text "sql: statement is closed"), dc)
    else if s.conn ∈ dc.closedConns then (.err (.text "sql: database is closed"), dc)
    else if srv dc.tick then (.ok (), { dc with tick := dc.tick + 1 })
    else (.err (.text "query failed"), { dc with tick := dc.tick + 1 })

def maxRetry : Nat := 5

/-- The loop of `queryDB` with `n` rounds left. `rows` says that `rows` is not nil, `err` is the
    last error; the result is their value after the loop. -/
def queryLoop (srv : Server) (s : Option Stmt) :
    Nat → DbCache → Bool → Option Err → Res Err (Bool × Option Err) × DbCache
  | 0, dc, rows, err => (.ok (rows, err), dc)
  | n + 1, dc, rows, _ =>
    if dc.dbc.isSome then
      match stmtQuery srv dc s with
      | (.ok (), dc') => (.ok (true, none), dc')
      | (.err e, dc') => queryLoop srv s n dc' false (some e)
      | (.panic p, dc') => (.panic p, dc')
    else
      match conectDB srv dc with
      | (err, dc') => queryLoop srv s n dc' rows err

variable {α : Type}

/-- `queryDB` of statement `s`, on which the server would select `answer`: the first row. -/
def queryDB (srv : Server) (dc : DbCache) (s : Option Stmt) (answer : List α) : Res Err α × DbCache :=
  match queryLoop srv s maxRetry dc false none with
  | (.ok (_, some e), dc') => (.err e, dc')
  | (.ok (false, none), dc') => (.panic "nil pointer dereference", dc')
  | (.ok (true, none), dc') =>
    match answer with
    | [] => (.err .notFound, dc')
    | r :: _ => (.ok r, dc')
  | (.err e, dc') => (.err e, dc')
  | (.panic p, dc') => (.panic p, dc')

/-- The loop of `dbQuery` with `n` rounds left, for a call of statement `s`: it asks for the
    statement anew in each round, and a call that failed is followed by a reconnect. -/
def dbQueryLoop (srv : Server) (s : StmtName) :
    Nat → DbCache → Bool → Option Err → Res Err (Bool × Option Err) × DbCache
  | 0, dc, rows, err => (.ok (rows, err), dc)
  | n + 1, dc, rows, _ =>
    if dc.dbc.isSome then
      match stmtQuery srv dc (dc.stmt s) with
      | (.ok (), dc') => (.ok (true, none), dc')
      | (.err _, dc') =>
        match conectDB srv dc' with
        | (err, dc'') => dbQueryLoop srv s n dc'' false err
      | (.panic p, dc') => (.panic p, dc')
    else
      match conectDB srv dc with
      | (err, dc') => dbQueryLoop srv s n dc' rows err

/-- `dbQuery` of statement `s`, and reading all the rows `answer` it selected. -/
def dbQuery (srv : Server) (dc : DbCache) (s : StmtName) (answer : List α) :
    Res Err (List α) × DbCache :=
  match dbQueryLoop srv s maxRetry dc false none with
  | (.ok (_, some e), dc') => (.err e, dc')
  | (.ok (false, none), dc') => (.panic "nil pointer dereference", dc')
  | (.ok (true, none), dc') => (.ok answer, dc')
  | (.err e, dc') => (.err e, dc')
  | (.panic p, dc') => (.panic p, dc')

/-! ## The lookups -/

variable {β : Type}

/-- How the lookups use the cache: `Get` the key and assert the type of what is there; on a miss
    run `miss` and `Add` what it found. `tg` and `ta` are the clock readings in `Get` and `Add`. -/
def lookupVia (tg ta : Int) (dc : DbCache) (key : String) (cast : Val → Option β)
    (miss : DbCache → Res Err (β × Val) × DbCache) : Res Err β × DbCache :=
  let (cache, v) := dc.cache.get tg key
  let dc := { dc with cache := cache }
  match v with
  | some v =>
    match cast v with
    | some b => (.ok b, dc)
    | none => (.panic "interface conversion", dc)
  | none =>
    match miss dc with
    | (.ok (b, v), dc) => (.ok b, { dc with cache := dc.cache.add ta key v })
    | (.err e, dc) => (.err e, dc)
    | (.panic p, dc) => (.panic p, dc)

/-- Go on with the row a query returned. -/
def onRow (f : α → β) : Res Err α × DbCache → Res Err β × DbCache
  | (.ok r, dc) => (.ok (f r), dc)
  | (.err e, dc) => (.err e, dc)
  | (.panic p, dc) => (.panic p, dc)

/-- What was found, or the error. -/
def orErr (found : Option α) (e : Err) : Res Err α :=
  match found with
  | some a => .ok a
  | none => .err e

/-- `fmt.Sprintf("\x03%d%d", appID, ifaceID)` -/
def relationKey (appID ifaceID : Int) : String := "\x03" ++ toString appID ++ toString ifaceID

/-- `validateRelation`: any cached value will do. -/
def validateRelation (srv : Server) (tb : Tables) (tg ta : Int) (dc : DbCache)
    (appID ifaceID : Int) : Res Err Unit × DbCache :=
  lookupVia tg ta dc (relationKey appID ifaceID) (fun _ => some ()) fun dc =>
    onRow (fun id => ((), Val.relation id))
      (queryDB srv dc (dc.stmt .selRelation) (selRelation tb appID ifaceID))

/-- `v.(*meta.Application)` -/
def Val.app? : Val → Option Application
  | .app a => some a
  | _ => none

/-- `fmt.Sprintf("\x01%d", id)` -/
def appKey (id : Int) : String := "\x01" ++ toString id

/-- `getApplication`: the cache is asked under the id alone. -/
def getApplication (srv : Server) (tb : Tables) (tg ta : Int) (dc : DbCache) (id : Int)
    (token : String) : Res Err Application × DbCache :=
  lookupVia tg ta dc (appKey id) Val.app? fun dc =>
    onRow (fun (name, email) => (⟨id, name, email⟩, Val.app ⟨id, name, email⟩))
      (queryDB srv dc (dc.stmt .selApp) (selApp tb id token))

/-- `v.([]*meta.Variable)` -/
def Val.vars? : Val → Option (List Variable)
  | .vars vs => some vs
  | _ => none

/-- `fmt.Sprintf("\x02%d", id)` -/
def varKey (id : Int) : String := "\x02" ++ toString id

/-- A number that is no bool. -/
def scanErr : Err := .text "couldn't convert into type bool"

/-- The variables of the rows, and what is cached. -/
def varsOf (rows : List VariableRow) : Res Err (List Variable × Val) :=
  orErr ((scanVars rows).map fun vs => (vs, Val.vars vs)) scanErr

/-- What `getVariable` does when the cache has nothing. -/
def variableMiss (srv : Server) (tb : Tables) (id : Int) (dc : DbCache) :
    Res Err (List Variable × Val) × DbCache :=
  let (rows, dc) := dbQuery srv dc .selVar (selVar tb id)
  (rows.bind varsOf, dc)

def getVariable (srv : Server) (tb : Tables) (tg ta : Int) (dc : DbCache) (id : Int) :
    Res Err (List Variable) × DbCache :=
  lookupVia tg ta dc (varKey id) Val.vars? (variableMiss srv tb id)

/-- `v.(*meta.Interface)` -/
def Val.iface? : Val → Option Interface
  | .iface i => some i
  | _ => none

/-- The interface path inside the request path `key`, whose parts between slashes start with
    some part, `p1` and `p2`: for a FaaS service all that follows `p1`, up to the last `?`. -/
def ifacePath (version : Int) (key p1 p2 : String) : String :=
  if version = 1 then
    let path := sliceFrom key (p1.length + 1)
    match lastIndex path '?' with
    | some idx => sliceTo path idx
    | none => path
  else p2

/-- What `getInterface` does when the cache has nothing under `key`. -/
def interfaceMiss (srv : Server) (tb : Tables) (key : String) (dc : DbCache) :
    Res Err (Interface × Val) × DbCache :=
  match split key '/' with
  | _ :: p1 :: p2 :: _ =>
    match queryDB srv dc (dc.stmt .selService) (selService tb p1) with
    | (.ok p, dc) =>
      let path := ifacePath p.version key p1 p2
      onRow (fun (id, method, backend, email) =>
          (⟨id, method, backend, email, path, p⟩, Val.iface ⟨id, method, backend, email, path, p⟩))
        (queryDB srv dc (dc.stmt .selIface) (selIface tb p.id path))
    | (.err e, dc) => (.err e, dc)
    | (.panic p, dc) => (.panic p, dc)
  | _ => (.err .invalidPath, dc)

/-- `getInterface`: cached under the request path, whatever the request's method. -/
def getInterface (srv : Server) (tb : Tables) (tg ta : Int) (dc : DbCache) (key : String) :
    Res Err Interface × DbCache :=
  lookupVia tg ta dc key Val.iface? (interfaceMiss srv tb key)

/-! ## A live connection -/

/-- A connection is open, every statement was prepared on it, and nothing of it is closed. -/
def Live (dc : DbCache) : Prop :=
  ∃ c, dc.dbc = some c ∧ c ∉ dc.closedConns ∧
    ∀ n, dc.stmt n = some ⟨n, c⟩ ∧ (⟨n, c⟩ : Stmt) ∉ dc.closedStmts

theorem Live.withCache {dc : DbCache} (h : Live dc) (cache : Cache Val) (t : Nat) :
    Live { dc with cache := cache, tick := t } := h

theorem stmtQuery_live (srv : Server) (hs : srv.Reliable) (dc : DbCache) (h : Live dc)
    (n : StmtName) :
    stmtQuery srv dc (dc.stmt n) = (.ok (), { dc with tick := dc.tick + 1 }) := by
  obtain ⟨c, -, hopen, hst⟩ := h
  obtain ⟨hn, hncl⟩ := hst n
  rw [hn]
  simp only [stmtQuery, hncl, hopen, hs dc.tick, if_false, if_true]

/-- While the server answers and the statements belong to the open connection, `queryDB` returns
    the first row selected. -/
theorem queryDB_live (srv : Server) (hs : srv.Reliable) (dc : DbCache) (h : Live dc) (n : StmtName)
    (answer : List α) :
    queryDB srv dc (dc.stmt n) answer =
      (orErr answer.head? .notFound, { dc with tick := dc.tick + 1 }) := by
  have hq := stmtQuery_live srv hs dc h n
  obtain ⟨c, hc, -, -⟩ := h
  have hl : queryLoop srv (dc.stmt n) maxRetry dc false none =
      (.ok (true, none), { dc with tick := dc.tick + 1 }) := by
    simp only [maxRetry, queryLoop, hc, Option.isSome_some, if_true, hq]
  unfold queryDB
  rw [hl]
  cases answer <;> rfl

/-- On a live connection of a server that answers, `dbQuery` returns all the rows. -/
theorem dbQuery_live (srv : Server) (hs : srv.Reliable) (dc : DbCache) (h : Live dc) (n : StmtName)
    (answer : List α) :
    dbQuery srv dc n answer = (.ok answer, { dc with tick := dc.tick + 1 }) := by
  have hl : dbQueryLoop srv n maxRetry dc false none =
      (.ok (true, none), { dc with tick := dc.tick + 1 }) := by
    have hc : dc.dbc.isSome = true := by
      obtain ⟨c, hc, -⟩ := h
      rw [hc]
      rfl
    simp only [maxRetry, dbQueryLoop, hc, if_true, stmtQuery_live srv hs dc h n]
  unfold dbQuery
  rw [hl]

theorem variableMiss_live (srv : Server) (hs : srv.Reliable) (tb : Tables) (id : Int) (dc : DbCache)
    (h : Live dc) :
    variableMiss srv tb id dc = (varsOf (selVar tb id), { dc with tick := dc.tick + 1 }) := by
  rw [variableMiss, dbQuery_live srv hs dc h]
  rfl

/-- On a live connection a lookup whose miss finds `found` (or the error `e`) and leaves the cache
    alone answers from the cache when the key is bound there, else with `found`. -/
theorem lookupVia_cases (tg ta : Int) (dc : DbCache) (key : String) (cast : Val → Option β)
    (miss : DbCache → Res Err (β × Val) × DbCache) (found : Option (β × Val)) (e : Err) (n : Nat)
    (hm : miss { dc with cache := dc.cache.evict tg } =
      (orErr found e, { dc with cache := dc.cache.evict tg, tick := n })) :
    (∃ v, (dc.cache.evict tg).lookup key = some v ∧
      lookupVia tg ta dc key cast miss =
        (match cast v with | some b => Res.ok b | none => .panic "interface conversion",
          { dc with cache := dc.cache.evict tg })) ∨
    ((dc.cache.evict tg).lookup key = none ∧ ∃ b v, found = some (b, v) ∧
      lookupVia tg ta dc key cast miss =
        (.ok b, { dc with cache := (dc.cache.evict tg).add ta key v, tick := n })) ∨
    ((dc.cache.evict tg).lookup key = none ∧ found = none ∧
      lookupVia tg ta dc key cast miss =
        (.err e, { dc with cache := dc.cache.evict tg, tick := n })) := by
  cases hl : (dc.cache.evict tg).lookup key with
  | some v =>
    refine Or.inl ⟨v, rfl, ?_⟩
    simp only [lookupVia, Cache.get, hl]
    cases cast v <;> rfl
  | none =>
    right
    cases found with
    | some r =>
      refine Or.inl ⟨rfl, r.1, r.2, rfl, ?_⟩
      simp only [lookupVia, Cache.get, hl, hm, orErr]
    | none =>
      refine Or.inr ⟨rfl, rfl, ?_⟩
      simp only [lookupVia, Cache.get, hl, hm, orErr]

theorem onRow_orErr (f : α → β) (found : Option α) (e : Err) (dc : DbCache) :
    onRow f (orErr found e, dc) = (orErr (found.map f) e, dc) := by
  cases found <;> rfl

/-- `prepareAll` touches the statements asked for and the request counter. What it holds then was
    there before or is of connection `c`; without an error, all that was asked for is of `c`. -/
theorem prepareAll_spec (srv : Server) (c : Nat) (ns : List StmtName) :
    ∀ dc : DbCache, ∃ t f, (prepareAll srv c ns dc).2 = { dc with tick := t, stmt := f } ∧
      (∀ n st, f n = some st → st.conn = c ∨ dc.stmt n = some st) ∧
      (∀ n, n ∉ ns → f n = dc.stmt n) ∧
      ((prepareAll srv c ns dc).1 = none → ∀ n ∈ ns, f n = some ⟨n, c⟩) := by
  induction ns with
  | nil =>
    intro dc
    refine ⟨dc.tick, dc.stmt, rfl, fun _ _ h => Or.inr h, fun _ _ => rfl, fun _ n hn => ?_⟩
    exact absurd hn List.not_mem_nil
  | cons m ns ih =>
    intro dc
    cases hsrv : srv dc.tick with
    | false =>
      simp only [prepareAll, hsrv, Bool.false_eq_true, if_false]
      refine ⟨_, _, rfl, fun n st h => ?_, fun n hn => ?_, fun h => absurd h (Option.some_ne_none _)⟩
      · by_cases hnm : n = m
        · simp [hnm] at h
        · exact Or.inr (by simpa [hnm] using h)
      · have hnm : n ≠ m := fun hnm => hn (hnm ▸ List.mem_cons_self)
        exact if_neg hnm
    | true =>
      simp only [prepareAll, hsrv, if_true]
      obtain ⟨t, f, hdc, hheld, hrest, hall⟩ := ih { dc with
        tick := dc.tick + 1, stmt := fun k => if k = m then some ⟨m, c⟩ else dc.stmt k }
      refine ⟨t, f, hdc, fun n st h => ?_, fun n hn => ?_, fun hok n hn => ?_⟩
      · rcases hheld n st h with hc | hst
        · exact Or.inl hc
        · by_cases hnm : n = m
          · simp only [hnm, if_true, Option.some.injEq] at hst
            exact Or.inl (by rw [← hst])
          · exact Or.inr (by simpa [hnm] using hst)
      · have hnm : n ≠ m := fun hnm => hn (hnm ▸ List.mem_cons_self)
        rw [hrest n fun h => hn (List.mem_cons_of_mem _ h)]
        exact if_neg hnm
      · by_cases hns : n ∈ ns
        · exact hall hok n hns
        · rw [hrest n hns]
          rcases List.mem_cons.mp hn with rfl | hn
          · exact if_pos rfl
          · exact absurd hn hns

theorem prepareAll_reliable (srv : Server) (hs : srv.Reliable) (c : Nat) (ns : List StmtName) :
    ∀ dc : DbCache, (prepareAll srv c ns dc).1 = none := by
  induction ns with
  | nil => intro dc; rfl
  | cons m ns ih =>
    intro dc
    simp only [prepareAll, hs dc.tick, if_true]
    exact ih _

theorem StmtName.mem_all (n : StmtName) : n ∈ StmtName.all := by
  cases n <;> decide

/-- On a reliable server `conectDB` opens the next connection and prepares every statement on
    it. -/
theorem conectDB_reliable (srv : Server) (hs : srv.Reliable) (dc : DbCache) : ∃ t f,
    conectDB srv dc = (none, { dc with
      tick := t, opened := dc.opened + 1, dbc := some dc.opened, stmt := f }) ∧
      ∀ n, f n = some ⟨n, dc.opened⟩ := by
  let opened : DbCache :=
    { dc with tick := dc.tick + 1, opened := dc.opened + 1, dbc := some dc.opened }
  have hnone := prepareAll_reliable srv hs dc.opened StmtName.all opened
  obtain ⟨t, f, hdc, -, -, hall⟩ := prepareAll_spec srv dc.opened StmtName.all opened
  refine ⟨t, f, ?_, fun n => hall hnone n n.mem_all⟩
  have he : prepareAll srv dc.opened StmtName.all opened =
      (none, { opened with tick := t, stmt := f }) :=
    Prod.ext hnone hdc
  simp only [conectDB, hs dc.tick, if_true]
  rw [he]

/-- The gateway after `Init`: `conectDB` on the new `dbCache`. -/
def initDC (srv : Server) (timeout : Int) : DbCache := (conectDB srv (newDbCache timeout)).2

/-- On a reliable server `Init` leaves a live connection and an empty cache. -/
theorem initDC_spec (srv : Server) (hs : srv.Reliable) (timeout : Int) :
    Live (initDC srv timeout) ∧ (initDC srv timeout).cache = newCache timeout := by
  obtain ⟨t, f, he, hf⟩ := conectDB_reliable srv hs (newDbCache timeout)
  unfold initDC
  rw [he]
  refine ⟨⟨0, rfl, ?_, ?_⟩, rfl⟩
  · simp [newDbCache]
  · intro n
    exact ⟨hf n, by simp [newDbCache]⟩

end Doodle.Repeater
