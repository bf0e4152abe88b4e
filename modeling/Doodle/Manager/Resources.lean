/-
  The manager's interfaces and variables: `interface`, `interface/deploy` and `variable` of
  `manager/interface.go` and `manager/variable.go`, over the tables they read and write.

  A variable belongs to an interface, an interface to a service, and a service has a resource. Some
  of the handlers ask for the user of the session and look up the resource of a service that the
  request names; the statements that follow go by other ids, or by a search text.

  The rows of the tables have the columns these handlers read and write. What MySQL makes of `like`
  and of `order by` is a `Collation`. An `Env` is what else one request meets: the time, the
  statements that are refused, the order in which rows come, and what a statement does whose texts
  do not end where they should. The rules of the `valid` tags are the parameter `Rules`.
-/
import Doodle.Lib.Page
import Doodle.Manager.Relations
import Doodle.Manager.ServicePost

namespace Doodle.Manager.Resources

open Doodle.Lib Doodle.Util
open Relations (Fault Iface IfacePut decodeReceiver)
open ServicePost (ServiceRow serviceSchema)

/-! ## Tables -/

/-- A row of `interface`. -/
structure InterfaceRow where
  id : Int
  serviceID : Int
  name : String
  method : Int
  user : String
  email : String
  state : Int
  path : String
  backend : String
  comment : String
  level : Int
  ctime : String
  mtime : String
  deriving DecidableEq

/-- A row of `variable`. -/
structure VariableRow where
  id : Int
  interfaceID : Int
  postion : Int
  name : String
  type : String
  level : Int
  required : Int
  exampleText : String
  comment : String
  ctime : String
  mtime : String
  deriving DecidableEq

/-- The condition `interface` GET ends up with. -/
inductive Cond where
  | service (id : Int)
  | published
  | search (text : String)

def Cond.text : Cond → String
  | service id => "service_id=" ++ toString id
  | published => "state=1"
  | search t => searchCond t

/-- Each `Where` replaces the one before. -/
def cond (i : InterfaceAction) : Cond :=
  if i.search ≠ "" then .search i.search
  else if i.state = 1 then .published
  else .service i.serviceID

theorem countStmt_eq (i : InterfaceAction) :
    i.countStmt = (Crab.Stmt.new "interface").setWhere (cond i).text := by
  unfold InterfaceAction.countStmt cond
  split_ifs <;> rfl

variable [Collating]

/-- `uniq_path` -/
abbrev interfaceSchema : Schema InterfaceRow (Int × String × Int) :=
  ⟨(·.id), fun i => (i.serviceID, weight i.path, i.method)⟩

/-- The tables. `vars` is `variable`, which has no unique key but its id. -/
structure Db where
  service : Table serviceSchema
  interface : Table interfaceSchema
  vars : List VariableRow
  nextVar : Int

/-- `select * from service where id=…` -/
def Db.serviceOf (db : Db) (id : Int) : Option ServiceRow :=
  db.service.rows.find? fun s => s.id = id

/-! ## What a request meets -/

/-- How MySQL compares texts. -/
structure Collation where
  /-- the text has the pattern -/
  like : String → String → Bool
  /-- the rows may come in this order after `order by sort order`; never, when that is an error -/
  sorted : String → String → List VariableRow → Prop
  /-- without a sort column nothing is said about the order -/
  unsorted : ∀ order rows, sorted "" order rows

/-- An interface and its service, as `orm` joins them. -/
abbrev Listed := InterfaceRow × ServiceRow

inductive Stmt where
  | resourceID | countInterface | insertInterface | updateInterface | deployInterface
  | delInterface | countVariable | addVariable | updateVariable | delVariable
  deriving DecidableEq

/-- What is left open of one request's surroundings. -/
structure Env (C : Collation) where
  now : String
  refuses : Stmt → Option String
  /-- the rows of a select in the order they come -/
  selectInterfaces : List Listed → Except String (List Listed)
  interfaces_perm : ∀ {rows l}, selectInterfaces rows = .ok l → l.Perm rows
  selectVars : String → String → List VariableRow → Except String (List VariableRow)
  vars_perm : ∀ {sort order rows l}, selectVars sort order rows = .ok l →
    l.Perm rows ∧ C.sorted sort order l
  /-- a search text that does not end where it should -/
  strayCount : Except Fault Int
  strayInterfaces : Except Fault (List Listed)
  /-- a sort column that is more than a name -/
  strayVars : Except Fault (List VariableRow)
  /-- an insert into `variable` whose texts do not read -/
  strayAdd : List VariableRow → Except Fault Int × List VariableRow

/-! ## Forms -/

/-- The struct of `variable` GET. -/
structure VariableGet where
  interfaceID : Int := 0
  serviceID : Int := 0
  sort : String := ""
  order : String := ""
  page : Int := 0
  size : Int := 0

def VariableGet.fields : List (Util.Field VariableGet) :=
  [⟨"interfaceID", "Required", .int (·.interfaceID) fun n v => { v with interfaceID := n }⟩,
   ⟨"serviceID", "Required", .int (·.serviceID) fun n v => { v with serviceID := n }⟩,
   ⟨"sort", "", .str fun t v => { v with sort := t }⟩,
   ⟨"order", "", .str fun t v => { v with order := t }⟩,
   ⟨"offset", "", .int (·.page) fun n v => { v with page := n }⟩,
   ⟨"limit", "", .int (·.size) fun n v => { v with size := n }⟩]

/-- The struct of `variable` POST. -/
structure VariablePost where
  interfaceID : Int := 0
  postion : Int := 0
  name : String := ""
  type : String := ""
  required : Int := 0
  exampleText : String := ""
  comment : String := ""
  ctime : String := ""
  mtime : String := ""

def VariablePost.fields : List (Util.Field VariablePost) :=
  [⟨"interfaceID", "Required", .int (·.interfaceID) fun n v => { v with interfaceID := n }⟩,
   ⟨"postion", "", .int (·.postion) fun n v => { v with postion := n }⟩,
   ⟨"name", "Required", .str fun t v => { v with name := t }⟩,
   ⟨"type", "Required", .str fun t v => { v with type := t }⟩,
   ⟨"required", "", .int (·.required) fun n v => { v with required := n }⟩,
   ⟨"example", "Required", .str fun t v => { v with exampleText := t }⟩,
   ⟨"comment", "Required", .str fun t v => { v with comment := t }⟩,
   ⟨"CTime", "", .str fun t v => { v with ctime := t }⟩,
   ⟨"Mtime", "", .str fun t v => { v with mtime := t }⟩]

/-- The struct of `variable` PUT. -/
structure VariablePut where
  id : Int := 0
  postion : Int := 0
  name : String := ""
  type : String := ""
  required : Int := 0
  exampleText : String := ""
  comment : String := ""

def VariablePut.fields : List (Util.Field VariablePut) :=
  [⟨"id", "Required", .int (·.id) fun n v => { v with id := n }⟩,
   ⟨"postion", "", .int (·.postion) fun n v => { v with postion := n }⟩,
   ⟨"name", "Required", .str fun t v => { v with name := t }⟩,
   ⟨"type", "Required", .str fun t v => { v with type := t }⟩,
   ⟨"required", "", .int (·.required) fun n v => { v with required := n }⟩,
   ⟨"example", "Required", .str fun t v => { v with exampleText := t }⟩,
   ⟨"comment", "Required", .str fun t v => { v with comment := t }⟩]

/-- The struct of `interface/deploy` PUT. -/
def deployFields : List (Util.Field OneID) :=
  [⟨"id", "Required", .int (·.id) fun n r => { r with id := n }⟩]

/-- `Validation.Valid` of the structs with a `valid` tag. -/
structure Rules where
  iface : Iface → Option String
  ifacePut : IfacePut → Option String
  deploy : OneID → Option String
  variableGet : VariableGet → Option String
  variablePost : VariablePost → Option String
  variablePut : VariablePut → Option String

/-! ## Statements -/

abbrev Act (α : Type) := Action Fault Db α

section Statements

variable {C : Collation} (E : Env C)

/-- A statement, unless the database refuses it. -/
def send {α : Type} (s : Stmt) (x : Act α) : Act α := fun db =>
  match E.refuses s with
  | some e => (.error (.text e), db)
  | none => x db

def getServiceResourceID (id : Int) : Act Int :=
  send E .resourceID fun db =>
    match db.serviceOf id with
    | some s => (.ok s.resourceID, db)
    | none => (.error (.text ("service " ++ toString id ++ " not found")), db)

/-- The rows a condition is true of, when its text reads. -/
def Cond.read (C : Collation) : Cond → Except Rbac.Fault (InterfaceRow → Bool)
  | service id => .ok fun i => i.serviceID = id
  | published => .ok fun i => i.state = 1
  | search t => (Rbac.literal ("%" ++ t ++ "%")).map fun pattern i =>
      [i.name, i.user, i.comment, i.path, i.backend].any (C.like pattern)

/-- `from interface,service where … and interface.service_id = service.id` -/
def Db.joined (db : Db) (p : InterfaceRow → Bool) : List Listed :=
  (db.interface.rows.filter p).filterMap fun i => (db.serviceOf i.serviceID).map fun s => (i, s)

/-- `Scan` into `meta.Interface`, whose `State` is a bool. -/
def scansInterface (x : Listed) : Bool := x.1.state = 0 || x.1.state = 1

/-- `Scan` into `meta.Variable`, whose `Required` is a bool. -/
def scansVariable (v : VariableRow) : Bool := v.required = 0 || v.required = 1

/-- The limit of `orm`: an offset that is not positive is left out. -/
def ormWindow (offset limit : Int) : Window :=
  if limit > 0 then some (offset.toNat, limit.toNat) else none

/-- `stmt.Count` -/
def countInterfaces (i : InterfaceAction) : Act Int :=
  send E .countInterface fun db =>
    match (cond i).read C with
    | .error _ => (E.strayCount, db)
    | .ok p => (.ok (db.interface.rows.filter p).length, db)

/-- `rows.Scan` of every row. -/
def scanned {α : Type} (scans : α → Bool) (rows : List α) : Except Fault (List α) :=
  if rows.all scans then .ok rows else .error (.text "sql: Scan error")

/-- No row is an error of `stmt.Query`. -/
def found {α : Type} : Except Fault (List α) → Except Fault (List α)
  | .ok [] => .error (.text "not found")
  | x => x

/-- `stmt.Query` -/
def listInterfaces (i : InterfaceAction) : Act (List Listed) := fun db =>
  match (cond i).read C with
  | .error _ => (E.strayInterfaces, db)
  | .ok p =>
    match E.selectInterfaces (db.joined p) with
    | .error e => (.error (.text e), db)
    | .ok rows => (found (scanned scansInterface ((ormWindow i.page i.size).page rows)), db)

def interfaceEntry (i : Iface) : Entry interfaceSchema :=
  .fresh (i.serviceID, weight i.path, i.method)
    (fun n => ⟨n, i.serviceID, i.name, i.method, i.user, i.email, i.state, i.path, i.backend,
      i.comment, i.level, E.now, E.now⟩)
    (fun _ => rfl) fun _ => rfl

def insertInterface (i : Iface) : Act Int :=
  send E .insertInterface fun db =>
    let x := Relations.insert db.interface (interfaceEntry E i)
    (x.1, { db with interface := x.2 })

/-- An `update` that may give two rows one key. -/
def updated (t : Option (Table interfaceSchema)) (db : Db) : Except Fault Unit × Db :=
  match t with
  | some t => (.ok (), { db with interface := t })
  | none => (.error .duplicate, db)

def setInterface (now : String) (p : IfacePut) (r : InterfaceRow) : InterfaceRow :=
  { r with
    name := p.name, method := p.method, level := p.level, path := p.path, backend := p.backend,
    comment := p.comment, mtime := now, user := p.user, email := p.email }

theorem id_setInterface (now : String) (p : IfacePut) (r : InterfaceRow) :
    interfaceSchema.id (setInterface now p r) = interfaceSchema.id r := rfl

def updateInterface (p : IfacePut) : Act Unit :=
  send E .updateInterface fun db =>
    updated (db.interface.update (fun r => r.id = p.id) (setInterface E.now p)
      (id_setInterface E.now p)) db

/-- The column `mtime` follows a change of the row. -/
def setDeployed (now : String) (r : InterfaceRow) : InterfaceRow :=
  { r with state := 1, mtime := Rbac.onUpdate now r.mtime (r.state ≠ 1) }

theorem id_setDeployed (now : String) (r : InterfaceRow) :
    interfaceSchema.id (setDeployed now r) = interfaceSchema.id r := rfl

def deployInterface (id : Int) : Act Unit :=
  send E .deployInterface fun db =>
    updated (db.interface.update (fun r => r.id = id) (setDeployed E.now) (id_setDeployed E.now)) db

def delInterface (id : Int) : Act Unit :=
  send E .delInterface fun db =>
    (.ok (), { db with interface := db.interface.delete fun r => r.id = id })

/-- The limit of `query`: the offset is always written, and must not be negative. -/
def queryWindow (offset count : Int) : Option Window :=
  if count > 0 then (if offset < 0 then none else some (some (offset.toNat, count.toNat)))
  else some none

/-- `query` of the variables of an interface: their total and the rows. -/
def queryVariables (v : VariableGet) : Act (Int × List VariableRow) := fun db =>
  let found := db.vars.filter fun x => x.interfaceID = v.interfaceID
  let total : Int := if (E.refuses .countVariable).isSome then v.size else found.length
  if Rbac.plainSort v.sort v.order then
    match queryWindow v.page v.size with
    | none => (.error .malformed, db)
    | some w =>
      match E.selectVars v.sort v.order found with
      | .error e => (.error (.text e), db)
      | .ok rows => ((scanned scansVariable (w.page rows)).map fun rows => (total, rows), db)
  else (E.strayVars.map fun rows => (total, rows), db)

/-- A column with `db_default:"now()"`; `none` is the default. -/
def timeText (s : String) : Except Rbac.Fault (Option String) :=
  if s = "" then .ok none else (Rbac.literal s).map some

/-- The row of a variable, once its texts are read. The column `level` has a default. -/
def VariablePost.row (v : VariablePost) : Except Rbac.Fault (String → Int → VariableRow) := do
  let name ← Rbac.quoted v.name
  let type ← Rbac.quoted v.type
  let exampleText ← Rbac.quoted v.exampleText
  let comment ← Rbac.quoted v.comment
  let ctime ← timeText v.ctime
  let mtime ← timeText v.mtime
  pure fun now id => ⟨id, v.interfaceID, v.postion, name, type, 0, v.required, exampleText, comment,
    ctime.getD now, mtime.getD now⟩

/-- `add("variable", vars)` -/
def addVariable (v : VariablePost) : Act Int :=
  send E .addVariable fun db =>
    match v.row with
    | .error .injected =>
      ((E.strayAdd db.vars).1, { db with vars := (E.strayAdd db.vars).2 })
    | .error _ => (.error .malformed, db)
    | .ok row =>
      (.ok db.nextVar, { db with
        vars := db.vars ++ [row E.now db.nextVar]
        nextVar := db.nextVar + 1 })

def setVariable (now : String) (p : VariablePut) (v : VariableRow) : VariableRow :=
  { v with
    postion := p.postion, name := p.name, type := p.type, required := p.required,
    exampleText := p.exampleText, comment := p.comment, mtime := now }

def updateVariable (p : VariablePut) : Act Unit :=
  send E .updateVariable fun db =>
    (.ok (), { db with
      vars := db.vars.map fun v => if v.id = p.id then setVariable E.now p v else v })

def delVariable (id : Int) : Act Unit :=
  send E .delVariable fun db =>
    (.ok (), { db with vars := db.vars.filter fun v => !decide (v.id = id) })

end Statements

/-! ## Handlers -/

/-- What a handler writes. -/
inductive Reply where
  | resp (r : Resp)
  /-- a total and interfaces -/
  | interfaces (total : Int) (rows : List Listed)
  /-- a total and variables -/
  | vars (total : Int) (rows : List VariableRow)

/-- What a handler writes, and the tables after it. -/
abbrev Handler := Db → Reply × Db

def reply (r : Resp) : Handler := fun db => (.resp r, db)

/-- `if err != nil { answer bad; return }`, then go on. -/
def orFail {α : Type} (x : Act α) (bad : String → Resp) (good : α → Handler) : Handler :=
  x.onErr (fun f => .resp (bad f.message)) good

section Handlers

variable {C : Collation} (R : Rules) (E : Env C) (user : Except String User) (q : Util.Request)

/-- `session.User`, answered with 400 on an error. -/
def withUser (k : User → Handler) : Handler :=
  match user with
  | .error e => reply (.status 400 e)
  | .ok u => k u

/-- `util.DecodeRequestValue` into a struct of the handler. -/
def decoded {S : Type} (fields : List (Util.Field S)) (valid : S → Option String) (zero : S)
    (bad : String → Resp) (k : S → Handler) : Handler :=
  match decodeRequestValue fields valid q zero with
  | (some e, _) => reply (bad e)
  | (none, v) => k v

/-- The resource of the service must be one of the user's. -/
def withService (u : User) (serviceID : Int) (bad : String → Resp) (k : Handler) : Handler :=
  orFail (getServiceResourceID E serviceID) bad fun resID =>
    match u.assert resID with
    | .error e => reply (.printf e)
    | .ok () => k

/-- The rest of `interface` GET, once the service is permitted. -/
def pageInterfaces (i : InterfaceAction) : Handler :=
  orFail (countInterfaces E i) .printf fun total =>
    (listInterfaces E i).onErr (fun _ => .resp (.page 0 none)) fun rows db =>
      (.interfaces total rows, db)

/-- The rest of `interface` GET, once the receiver is decoded. -/
def interfaceGET (u : User) (i : InterfaceAction) : Handler :=
  withService E u i.serviceID .printf (pageInterfaces E i)

/-- The rest of `interface` DELETE, once the receiver is decoded. -/
def interfaceDELETE (i : InterfaceAction) : Handler :=
  orFail (delInterface E i.id) (.status 500) fun _ => reply (.status 0 "")

/-- What `interface` POST answers after the insert. -/
def insertResp : Except Fault Int → Resp
  | .error .duplicate => .status 500 "接口路径已存在, 接口路径在整个项目中是唯一的，不可重复"
  | .error f => .status 500 f.message
  | .ok id => .data (.id id)

def interfacePOST : Handler :=
  withUser user fun u =>
    decoded q Iface.fields R.iface {} (.status 400) fun i =>
      withService E u i.serviceID (.status 400) fun db =>
        let x := insertInterface E { i with state := 0, user := u.user, email := u.email } db
        (.resp (insertResp x.1), x.2)

def interfacePUT : Handler :=
  decoded q IfacePut.fields R.ifacePut {} (.status 500) fun p =>
    orFail (updateInterface E p) (.status 500) fun _ => reply (.status 0 "")

/-- `interfaceDeploy` PUT -/
def deployPUT : Handler :=
  decoded q deployFields R.deploy {} (.status 500) fun r =>
    orFail (deployInterface E r.id) (.status 500) fun _ => reply (.status 0 "")

/-- The rest of `variable` GET, once the service is permitted. An error of `query` leaves no
    rows. -/
def pageVariables (v : VariableGet) : Handler :=
  (queryVariables E v).onErr (fun _ => .vars 0 []) fun x db =>
    (if x.2.isEmpty then .vars 0 [] else .vars x.1 x.2, db)

def variableGET : Handler :=
  withUser user fun u =>
    decoded q VariableGet.fields R.variableGet {} .printf fun v =>
      withService E u v.serviceID .printf (pageVariables E v)

def variablePOST : Handler :=
  decoded q VariablePost.fields R.variablePost {} (.status 500) fun v =>
    orFail (addVariable E v) (.status 500) fun id => reply (.status 0 (Relations.idMessage id))

def variablePUT : Handler :=
  decoded q VariablePut.fields R.variablePut {} (.status 500) fun p =>
    orFail (updateVariable E p) (.status 500) fun _ => reply (.status 0 "")

def variableDELETE : Handler :=
  withUser user fun _ =>
    decoded q (OneID.fields "id") (fun _ => none) {} (.status 500) fun r =>
      orFail (delVariable E r.id) (.status 500) fun _ => reply (.status 0 "")

end Handlers

/-! ## The endpoints -/

inductive Path where
  | interface | deploy | var
  deriving DecidableEq

/-- The tables and the receiver of `interfaceAction`. -/
structure State where
  db : Db
  receiver : InterfaceAction

section Endpoints

variable {C : Collation} (R : Rules) (E : Env C) (user : Except String User) (q : Util.Request)

/-- A handler that does not use the receiver. -/
def onDb (h : Handler) (s : State) : Reply × State := ((h s.db).1, { s with db := (h s.db).2 })

/-- A handler that decodes the form into the receiver. -/
def onReceiver (bad : String → Resp) (h : InterfaceAction → Handler) (s : State) : Reply × State :=
  match decodeReceiver q s.receiver with
  | (some e, i) => (.resp (bad e), { s with receiver := i })
  | (none, i) => onDb (h i) { s with receiver := i }

/-- One request. A method that is not there is not found. -/
def serve : Path → Method → State → Reply × State
  | .interface, .GET => fun s =>
    match user with
    | .error e => (.resp (.status 400 e), s)
    | .ok u => onReceiver q .printf (interfaceGET E u) s
  | .interface, .DELETE => onReceiver q (.status 500) (interfaceDELETE E)
  | .interface, .POST => onDb (interfacePOST R E user q)
  | .interface, .PUT => onDb (interfacePUT R E q)
  | .deploy, .PUT => onDb (deployPUT R E q)
  | .deploy, _ => onDb (reply (.status 404 "invalid request"))
  | .var, .GET => onDb (variableGET R E user q)
  | .var, .POST => onDb (variablePOST R E q)
  | .var, .PUT => onDb (variablePUT R E q)
  | .var, .DELETE => onDb (variableDELETE E user q)

end Endpoints

end Doodle.Manager.Resources
