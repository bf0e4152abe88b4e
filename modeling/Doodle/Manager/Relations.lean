/-
  The manager's applications, interfaces and relations: the handlers of `manager/app.go`,
  `manager/interface.go` and `manager/relation.go` that write, over the tables they write.

  A relation is the permission of an application to call an interface. `relation` POST looks at the
  state of the interface; nothing else looks at the other tables. `app` DELETE and PUT pass their
  struct to `DecodeRequestValue` by value: an id that parses is a panic, so PUT never writes, and
  DELETE only ever deletes the row 0. The receiver of `interfaceAction` is part of the state: its
  DELETE goes on with the id of an earlier request when its own does not parse.

  What a request meets is a `Server`: the answer of the session, the statements the database
  refuses, what it makes of a statement whose spliced texts do not end where they should, and the
  rules of the `valid` tags. Registration is the program of `Doodle.Manager.Register`.
-/
import Doodle.Lib.Triple
import Doodle.Manager.Objects
import Doodle.Manager.Register

namespace Doodle.Manager.Relations

open Doodle.Lib Doodle.Util Doodle.Go

/-! ## Tables -/

/-- A row of `application`. -/
structure AppRow where
  id : Int
  name : String
  email : String
  user : String
  comment : String
  token : String
  ctime : String
  mtime : String
  deriving DecidableEq

/-- A row of `relation`. -/
structure RelationRow where
  id : Int
  interfaceID : Int
  applicationID : Int
  ctime : String
  mtime : String
  deriving DecidableEq

variable [Collating]

/-- `uniq_name` -/
abbrev appSchema : Schema AppRow String := ⟨(·.id), fun r => weight r.name⟩

/-- `uniq_relation` -/
abbrev relationSchema : Schema RelationRow (Int × Int) :=
  ⟨(·.id), fun r => (r.interfaceID, r.applicationID)⟩

/-- The tables. `registry` has the services, the interfaces and their variables, and `level` is the
    column of `interface` that registration does not set, by id. -/
structure Db where
  application : Table appSchema
  registry : Register.Db
  level : Int → Int
  relation : Table relationSchema

/-! ## What a request meets -/

/-- The statements of `manager/db.go`, and the insert of `interface` POST. -/
inductive Stmt where
  | addApplication | updateAppToken | updateApp | delApplication
  | getServiceResourceID | insertInterface | updateInterface | deployInterface | delInterface
  | getInterfaceState | addRelation | updateRelation | delRelation
  deriving DecidableEq

inductive Fault where
  /-- the text of the source, or of a database that refuses the statement -/
  | text (s : String)
  /-- error 1064 -/
  | malformed
  /-- error 1062 -/
  | duplicate

/-- `err.Error()` -/
def Fault.message : Fault → String
  | .text s => s
  | .malformed => "Error 1064"
  | .duplicate => "Error 1062: Duplicate entry"

/-- The struct `iface`. -/
structure Iface where
  id : Int := 0
  serviceID : Int := 0
  name : String := ""
  method : Int := 0
  user : String := ""
  email : String := ""
  state : Int := 0
  path : String := ""
  backend : String := ""
  comment : String := ""
  level : Int := 0
  ctime : String := ""
  mtime : String := ""

/-- The struct of `interface` PUT. -/
structure IfacePut where
  id : Int := 0
  name : String := ""
  user : String := ""
  email : String := ""
  method : Int := 0
  path : String := ""
  backend : String := ""
  comment : String := ""
  level : Int := 0

/-- What is left open of one request's surroundings. -/
structure Server where
  /-- the answer of `session.User` -/
  user : Except String User
  now : String
  /-- `PutVarint` into eight bytes and `AesEncrypt` -/
  token : Int → Res String String
  /-- the column `resource_id` of `service` -/
  resourceID : Int → Option Int
  refuses : Stmt → Option String
  refusesCall : Register.Call → Register.Db → Option String
  /-- a statement of `add` whose texts do not read -/
  strayAdd : Stmt → Db → Except Fault Int × Db
  /-- the query of registration whose path does not read -/
  strayFind : IfaceKey → Register.Db → Except Register.Fault Int
  /-- `Validation.Valid` -/
  validIface : Iface → Option String
  validPut : IfacePut → Option String
  validDeploy : OneID → Option String

abbrev Act (α : Type) := Action Fault Db α

section Statements

variable (S : Server)

/-- A statement, unless the database refuses it. -/
def send {α : Type} (s : Stmt) (x : Act α) : Act α := fun db =>
  match S.refuses s with
  | some e => (.error (.text e), db)
  | none => x db

/-! ## `add` -/

/-- A column with `db_default:"now()"`. -/
def timeText (s : String) : Except Rbac.Fault String :=
  if s = "" then .ok S.now else Rbac.literal s

/-- The struct `app`. -/
structure App where
  name : String
  email : String
  user : String
  comment : String
  ctime : String
  mtime : String

/-- The row of an application, once its texts are read. The column `token` has a default. -/
def App.row (a : App) : Except Rbac.Fault (AppRow) := do
  let name ← Rbac.quoted a.name
  let email ← Rbac.quoted a.email
  let user ← Rbac.quoted a.user
  let comment ← Rbac.quoted a.comment
  let ctime ← timeText S a.ctime
  let mtime ← timeText S a.mtime
  pure ⟨0, name, email, user, comment, " ", ctime, mtime⟩

/-- The struct of `relation` POST. -/
structure Link where
  appID : Int
  interfaceID : Int
  ctime : String
  mtime : String

def Link.row (l : Link) : Except Rbac.Fault RelationRow := do
  let ctime ← timeText S l.ctime
  let mtime ← timeText S l.mtime
  pure ⟨0, l.interfaceID, l.appID, ctime, mtime⟩

def appEntry (r : AppRow) : Entry appSchema :=
  .fresh (weight r.name) (fun n => { r with id := n }) (fun _ => rfl) fun _ => rfl

def relationEntry (r : RelationRow) : Entry relationSchema :=
  .fresh (r.interfaceID, r.applicationID) (fun n => { r with id := n }) (fun _ => rfl) fun _ => rfl

def ifaceEntry (i : Iface) : Entry Register.ifaceSchema :=
  .fresh (Register.fold (i.serviceID, i.path, i.method))
    (fun n =>
      ⟨n, i.serviceID, i.user, i.state, i.email, i.name, 0, i.path, i.method, i.backend, i.comment⟩)
    (fun _ => rfl) fun _ => rfl

/-- An insert: the id of the new row, or a duplicate, which still takes an id. -/
def insert {R K : Type} [DecidableEq K] {σ : Schema R K} (t : Table σ) (e : Entry σ) :
    Except Fault Int × Table σ :=
  if t.rows.any fun r => σ.key r = e.key then (.error .duplicate, t.skip)
  else (.ok t.next, t.upsert e)

/-- An `update` that may give two rows one key. -/
def updated {R K : Type} {σ : Schema R K} (t : Option (Table σ)) (set : Table σ → Db) (db : Db) :
    Except Fault Unit × Db :=
  match t with
  | some t => (.ok (), set t)
  | none => (.error .duplicate, db)

/-- `add`, when its texts read. -/
def added {α : Type} (s : Stmt) (row : Except Rbac.Fault α) (put : α → Act Int) : Act Int := fun db =>
  match row with
  | .error .injected => S.strayAdd s db
  | .error _ => (.error .malformed, db)
  | .ok r => put r db

/-! ## The statements -/

def addApplication (a : App) : Act Int :=
  send S .addApplication <| added S .addApplication (a.row S) fun r db =>
    let x := insert db.application (appEntry r)
    (x.1, { db with application := x.2 })

def updateAppToken (id : Int) (token : String) : Act Unit :=
  send S .updateAppToken fun db =>
    updated (db.application.update (fun r => r.id = id)
      (fun r => { r with token := token, mtime := S.now }) fun _ => rfl)
      (fun t => { db with application := t }) db

def updateApp (id : Int) (name user email comment : String) : Act Unit :=
  send S .updateApp fun db =>
    updated (db.application.update (fun r => r.id = id)
      (fun r => { r with
        name := name, user := user, email := email, comment := comment, mtime := S.now }) fun _ => rfl)
      (fun t => { db with application := t }) db

def delApplication (id : Int) : Act Unit :=
  send S .delApplication fun db =>
    (.ok (), { db with application := db.application.delete fun r => r.id = id })

def getServiceResourceID (id : Int) : Act Int :=
  send S .getServiceResourceID fun db =>
    match S.resourceID id with
    | some n => (.ok n, db)
    | none => (.error (.text ("service " ++ toString id ++ " not found")), db)

def insertInterface (i : Iface) : Act Int :=
  send S .insertInterface fun db =>
    match insert db.registry.interface (ifaceEntry i) with
    | (.error f, t) => (.error f, { db with registry := { db.registry with interface := t } })
    | (.ok id, t) =>
      (.ok id, { db with
        registry := { db.registry with interface := t }
        level := Function.update db.level id i.level })

def updateInterface (p : IfacePut) : Act Unit :=
  send S .updateInterface fun db =>
    updated (db.registry.interface.update (fun r => r.id = p.id)
      (fun r => { r with
        name := p.name, method := p.method, path := p.path, backend := p.backend,
        comment := p.comment, user := p.user, email := p.email }) fun _ => rfl)
      (fun t => { db with
        registry := { db.registry with interface := t }
        level := Function.update db.level p.id p.level }) db

def deployInterface (id : Int) : Act Unit :=
  send S .deployInterface fun db =>
    updated (db.registry.interface.update (fun r => r.id = id) (fun r => { r with state := 1 })
      fun _ => rfl)
      (fun t => { db with registry := { db.registry with interface := t } }) db

def delInterface (id : Int) : Act Unit :=
  send S .delInterface fun db =>
    (.ok (), { db with
      registry := { db.registry with
        interface := db.registry.interface.delete fun r => r.id = id } })

def getInterfaceState (id : Int) : Act Int :=
  send S .getInterfaceState fun db =>
    match db.registry.interface.rows.find? fun r => r.id = id with
    | some r => (.ok r.state, db)
    | none => (.error (.text ("app " ++ toString id ++ " not found")), db)

def addRelation (l : Link) : Act Int :=
  send S .addRelation <| added S .addRelation (l.row S) fun r db =>
    let x := insert db.relation (relationEntry r)
    (x.1, { db with relation := x.2 })

def updateRelation (id iid aid : Int) : Act Unit :=
  send S .updateRelation fun db =>
    updated (db.relation.update (fun r => r.id = id)
      (fun r => { r with interfaceID := iid, applicationID := aid, mtime := S.now }) fun _ => rfl)
      (fun t => { db with relation := t }) db

def delRelation (id : Int) : Act Unit :=
  send S .delRelation fun db =>
    (.ok (), { db with relation := db.relation.delete fun r => r.id = id })

/-- The database of a registration, which may refuse a statement. -/
def serveRegister (c : Register.Call) (db : Register.Db) : Register.Answer c × Register.Db :=
  match S.refusesCall c db with
  | some e => (.error (.text e), db)
  | none => Register.serve S.strayFind c db

end Statements

/-! ## Handlers -/

/-- What a handler writes, unless it panics, and the tables after it. -/
abbrev Handler := Db → Option Resp × Db

def reply (r : Resp) : Handler := fun db => (some r, db)

/-- The server recovers from a panic. -/
def crash : Handler := fun db => (none, db)

/-- `if err != nil { util.SendResponse(w, code, err.Error()); return }`, then go on. -/
def orFail {α : Type} (x : Act α) (code : Int) (good : α → Handler) : Handler :=
  x.onErr (fun f => some (.status code f.message)) good

/-- An integer field of a struct that starts at zero. -/
def num (q : Util.Request) (key : String) : Int := (q.int? key).getD 0

/-- The answer `{"id":n}`. -/
def idMessage (n : Int) : String := "\x7b\"id\":" ++ toString n ++ "\x7d"

section Handlers

variable (S : Server) (q : Util.Request)

/-- A form that does not parse is answered with 500. -/
def withForm (k : Handler) : Handler :=
  match q.formErr with
  | some e => reply (.status 500 e)
  | none => k

/-- `session.User`, answered with 400 on an error. -/
def withUser (k : User → Handler) : Handler :=
  match S.user with
  | .error e => reply (.status 400 e)
  | .ok u => k u

/-- All fields are strings, so the receiver is overwritten. -/
def App.ofForm : App :=
  ⟨q.formValue "name", q.formValue "email", q.formValue "user", q.formValue "comment",
    q.formValue "CTime", q.formValue "Mtime"⟩

/-- Who is no admin adds applications of their own. -/
def App.own (u : User) (a : App) : App :=
  if u.isAdmin then a else { a with user := u.user, email := u.email }

def appPOST : Handler :=
  withUser S fun u => withForm q <| fun db =>
    match addApplication S ((App.ofForm q).own u) db with
    | (.error .duplicate, db) => reply (.status 500 "已存在同名应用") db
    | (.error f, db) => reply (.status 500 f.message) db
    | (.ok id, db) =>
      match S.token id with
      | .panic _ => crash db
      | .err e => reply (.status 500 e) db
      | .ok token =>
        orFail (updateAppToken S id token) 500 (fun _ => reply (.status 0 (idMessage id))) db

/-- The struct of `app` PUT. -/
structure AppPut where
  id : Int := 0
  name : String := ""
  user : String := ""
  email : String := ""
  comment : String := ""

def AppPut.fields : List (Util.Field AppPut) :=
  [⟨"id", "Required", .int (·.id) fun v p => { p with id := v }⟩,
   ⟨"name", "Required", .str fun v p => { p with name := v }⟩,
   ⟨"user", "Required", .str fun v p => { p with user := v }⟩,
   ⟨"email", "Email", .str fun v p => { p with email := v }⟩,
   ⟨"comment", "Required", .str fun v p => { p with comment := v }⟩]

/-- The struct is passed by value and stays zero. -/
def appPUT : Handler :=
  withUser S fun u =>
    match decodeValue AppPut.fields q with
    | .panic _ => crash
    | .err e => reply (.status 500 e)
    | .ok () =>
      let p : AppPut := {}
      if !u.isAdmin && p.email ≠ u.email then reply (.status 500 "不能修改别人添加的应用")
      else orFail (updateApp S p.id p.name p.user p.email p.comment) 500 fun _ => reply (.status 0 "")

/-- The struct is passed by value and stays zero. -/
def appDELETE : Handler :=
  match decodeValue (OneID.fields "id") q with
  | .panic _ => crash
  | .err e => reply (.status 500 e)
  | .ok () => orFail (delApplication S 0) 500 fun _ => reply (.status 0 "")

def Iface.fields : List (Util.Field Iface) :=
  [⟨"ID", "", .int (·.id) fun v i => { i with id := v }⟩,
   ⟨"pid", "Required", .int (·.serviceID) fun v i => { i with serviceID := v }⟩,
   ⟨"name", "Required", .str fun v i => { i with name := v }⟩,
   ⟨"method", "", .int (·.method) fun v i => { i with method := v }⟩,
   ⟨"user", "", .str fun v i => { i with user := v }⟩,
   ⟨"email", "", .str fun v i => { i with email := v }⟩,
   ⟨"State", "", .int (·.state) fun v i => { i with state := v }⟩,
   ⟨"path", "AlphaNumeric", .str fun v i => { i with path := v }⟩,
   ⟨"backend", "Required", .str fun v i => { i with backend := v }⟩,
   ⟨"comment", "Required", .str fun v i => { i with comment := v }⟩,
   ⟨"level", "", .int (·.level) fun v i => { i with level := v }⟩,
   ⟨"CTime", "", .str fun v i => { i with ctime := v }⟩,
   ⟨"Mtime", "", .str fun v i => { i with mtime := v }⟩]

def interfacePOST : Handler :=
  withUser S fun u =>
    match decodeRequestValue Iface.fields S.validIface q {} with
    | (some e, _) => reply (.status 400 e)
    | (none, i) =>
      orFail (getServiceResourceID S i.serviceID) 400 fun resID =>
        match u.assert resID with
        | .error e => reply (.printf e)
        | .ok () => fun db =>
          match insertInterface S { i with state := 0, user := u.user, email := u.email } db with
          | (.error .duplicate, db) =>
            reply (.status 500 "接口路径已存在, 接口路径在整个项目中是唯一的，不可重复") db
          | (.error f, db) => reply (.status 500 f.message) db
          | (.ok id, db) => reply (.data (.id id)) db

def IfacePut.fields : List (Util.Field IfacePut) :=
  [⟨"id", "Required", .int (·.id) fun v p => { p with id := v }⟩,
   ⟨"name", "Required", .str fun v p => { p with name := v }⟩,
   ⟨"user", "", .str fun v p => { p with user := v }⟩,
   ⟨"email", "", .str fun v p => { p with email := v }⟩,
   ⟨"method", "", .int (·.method) fun v p => { p with method := v }⟩,
   ⟨"path", "AlphaNumeric", .str fun v p => { p with path := v }⟩,
   ⟨"backend", "Required", .str fun v p => { p with backend := v }⟩,
   ⟨"comment", "Required", .str fun v p => { p with comment := v }⟩,
   ⟨"level", "", .int (·.level) fun v p => { p with level := v }⟩]

def interfacePUT : Handler :=
  match decodeRequestValue IfacePut.fields S.validPut q {} with
  | (some e, _) => reply (.status 500 e)
  | (none, p) => orFail (updateInterface S p) 500 fun _ => reply (.status 0 "")

/-- `interfaceDeploy` PUT -/
def interfaceDeploy : Handler :=
  let fields : List (Util.Field OneID) :=
    [⟨"id", "Required", .int (·.id) fun v r => { r with id := v }⟩]
  match decodeRequestValue fields S.validDeploy q {} with
  | (some e, _) => reply (.status 500 e)
  | (none, r) => orFail (deployInterface S r.id) 500 fun _ => reply (.status 0 "")

/-- The rest of `interface` DELETE, once the receiver is decoded. -/
def interfaceDELETE (i : InterfaceAction) : Handler :=
  orFail (delInterface S i.id) 500 fun _ => reply (.status 0 "")

def Link.ofForm : Link :=
  ⟨num q "appID", num q "interfaceID", q.formValue "CTime", q.formValue "Mtime"⟩

def relationPOST : Handler :=
  withForm q <|
    orFail (getInterfaceState S (Link.ofForm q).interfaceID) 500 fun state =>
      if state ≠ 1 then reply (.status 500 "接口未发布，不可以授权应用")
      else orFail (addRelation S (Link.ofForm q)) 500 fun id => reply (.status 0 (idMessage id))

def relationPUT : Handler :=
  withForm q <|
    orFail (updateRelation S (num q "id") (num q "interfaceID") (num q "appID")) 500 fun _ =>
      reply (.status 0 "")

def relationDELETE : Handler :=
  withForm q <| orFail (delRelation S (num q "id")) 500 fun _ => reply (.status 0 "")

end Handlers

/-! ## The manager -/

/-- The tables and the receiver of `interfaceAction`. -/
structure State where
  db : Db
  receiver : InterfaceAction

/-- The requests to applications, interfaces and relations. A body of a registration that does not
    parse is `none`. `interface` GET is here for the receiver only. -/
inductive Event where
  | appPOST (q : Util.Request)
  | appPUT (q : Util.Request)
  | appDELETE (q : Util.Request)
  | interfaceGET (q : Util.Request)
  | interfacePOST (q : Util.Request)
  | interfacePUT (q : Util.Request)
  | interfaceDELETE (q : Util.Request)
  | interfaceDeploy (q : Util.Request)
  | register (body : Option (IfaceKey × Body))
  | relationPOST (q : Util.Request)
  | relationPUT (q : Util.Request)
  | relationDELETE (q : Util.Request)

/-- The receiver decodes the form. -/
def decodeReceiver (q : Util.Request) (i : InterfaceAction) : Option String × InterfaceAction :=
  decodeRequestValue InterfaceAction.fields (fun _ => none) q i

/-- The state after a request. -/
def step (s : State) : Server × Event → State
  | (S, .appPOST q) => { s with db := (appPOST S q s.db).2 }
  | (S, .appPUT q) => { s with db := (appPUT S q s.db).2 }
  | (S, .appDELETE q) => { s with db := (appDELETE S q s.db).2 }
  | (S, .interfaceGET q) =>
    { s with receiver := (interfaceAction.serve InterfaceAction.get S.user q s.receiver).1 }
  | (S, .interfacePOST q) => { s with db := (interfacePOST S q s.db).2 }
  | (S, .interfacePUT q) => { s with db := (interfacePUT S q s.db).2 }
  | (S, .interfaceDELETE q) =>
    match decodeReceiver q s.receiver with
    | (some _, i) => { s with receiver := i }
    | (none, i) => ⟨(interfaceDELETE S i s.db).2, i⟩
  | (S, .interfaceDeploy q) => { s with db := (interfaceDeploy S q s.db).2 }
  | (_, .register none) => s
  | (S, .register (some (k, b))) =>
    { s with db := { s.db with
      registry := (Prog.act (serveRegister S) (Register.post k b) s.db.registry).2 } }
  | (S, .relationPOST q) => { s with db := (relationPOST S q s.db).2 }
  | (S, .relationPUT q) => { s with db := (relationPUT S q s.db).2 }
  | (S, .relationDELETE q) => { s with db := (relationDELETE S q s.db).2 }

end Doodle.Manager.Relations
