/-
  The manager's handler objects that decode a request into their own receiver.

  `ServerInit` registers one object per path, and the server calls that one object for every
  request. A `Handler` is one method of such an object: whether it reads the session first, what
  it answers when the form cannot be decoded, what it changes in the receiver after decoding, and
  the calls it then makes. `Object.serve` is one request: the receiver after it, and the program
  that answers it. The methods of these objects that decode into a struct of their own
  (`interfaceAction` POST and PUT, `role` GET) neither read nor write the receiver and are left
  out, as is what the handlers write to the log.
-/
import Doodle.Manager.Backend
import Doodle.Util.Decode
import Doodle.Crab.Orm

namespace Doodle.Manager

open Doodle.Lib Doodle.Util Doodle.Crab

/-! ## Responses and users -/

/-- What a handler puts into the data part of a response. -/
inductive Payload where
  | null
  | id (n : Int)
  | row (r : Row)
  | rows (rs : List Row)
  deriving DecidableEq, Repr

/-- What a handler writes. -/
inductive Resp where
  /-- `fmt.Fprintf(w, format)` -/
  | printf (format : String)
  /-- `SendResponse(w, status, message)` -/
  | status (code : Int) (message : String)
  /-- `util.SendResponseJSON(w, data)` -/
  | data (p : Payload)
  /-- the JSON of the data alone -/
  | json (p : Payload)
  /-- the JSON of a total and rows; `none` is `null` -/
  | page (total : Int) (rows : Option (List Row))
  deriving DecidableEq, Repr

/-- `userinfo`, the fields the handlers read. -/
structure User where
  email : String
  user : String
  isAdmin : Bool
  res : List Int

/-- `userinfo.assert` -/
def User.assert (u : User) (resID : Int) : Except String Unit :=
  if u.isAdmin then .ok ()
  else if u.res.contains resID then .ok ()
  else .error "you don't have permission to access"

/-! ## Handlers -/

/-- `if err != nil { answer bad; return }`, then go on. -/
def onErr {α : Type} (a : Act α) (bad : String → Resp) (good : α → Prog Answer Resp) :
    Prog Answer Resp :=
  a.run >>= fun
    | .error e => .done (bad e)
    | .ok x => good x

/-- One method of an object with receiver type `S`. -/
structure Handler (S : Type) where
  /-- the method reads the session first -/
  session : Bool
  /-- the answer to a form that does not decode -/
  badForm : String → Resp
  /-- what the method changes in its receiver after decoding -/
  settle : User → S → S := fun _ s => s
  /-- the rest of the method; the user is read only when `session` holds -/
  act : User → S → Prog Answer Resp

inductive Method where
  | GET | POST | PUT | DELETE
  deriving DecidableEq, Repr

/-- An object registered by `ServerInit`: a receiver, its fields, and its methods. -/
structure Object where
  S : Type
  zero : S
  fields : List (Util.Field S)
  methods : Method → Option (Handler S)

/-- The user of a request for a handler that does not ask for one. -/
def noUser : User := ⟨"", "", false, []⟩

/-- What `session.User` gives a handler. -/
def Handler.user {S : Type} (h : Handler S) (user : Except String User) : Except String User :=
  if h.session then user else .ok noUser

/-- One request to a method: the receiver after it, and the program that answers it. None of the
    receivers has a `valid` tag, so `Validation.Valid` has nothing to check. -/
def Object.serve (o : Object) (h : Handler o.S) (user : Except String User) (q : Request) (s : o.S) :
    o.S × Prog Answer Resp :=
  match h.user user with
  | .error e => (s, .done (.status 400 e))
  | .ok u =>
    match decodeRequestValue o.fields (fun _ => none) q s with
    | (some e, s) => (s, .done (h.badForm e))
    | (none, s) => (h.settle u s, h.act u (h.settle u s))

/-! ## Statements of `manager/db.go` -/

/-- `rows.Scan(&n)` of one integer. -/
def scanInt : List Row → Act Int
  | (.int n :: _) :: _ => pure n
  | _ => throw "sql: Scan error"

def del (table : String) (id : Int) : Act Unit := do
  ask .connect
  ask (.exec ("delete from " ++ table ++ " where id=" ++ toString id))

def getResourceID (table : String) (id : Int) : Act Int := do
  ask .connect
  let rows ← ask (.query ("select resource_id from " ++ table ++ " where id=" ++ toString id) [])
  if rows.isEmpty then throw ("service " ++ toString id ++ " not found") else scanInt rows

def getServiceResourceID (serviceID : Int) : Act Int := getResourceID "service" serviceID

/-- The columns of `query`: the `db` tag or the name in lower case, in the first table unless it
    names one. -/
def queryColumn (dt : String) (c : Column) : String :=
  let name := if c.db = "" then c.name.toLower else c.db
  (if name.toList.contains '.' then "" else dt ++ ".") ++ name

/-- The limit of `query`: the offset is always written. -/
def queryLimit (offset count : Int) : String :=
  if count > 0 then " limit " ++ toString offset ++ "," ++ toString count else ""

/-- The select of `query`. -/
def querySelect (fields : List Column) (table cond sort order : String) (offset count : Int) :
    String :=
  let dt := String.ofList (table.toList.takeWhile (· ≠ ','))
  "select " ++ ", ".intercalate (fields.map (queryColumn dt)) ++ " from " ++ table ++
  (if cond ≠ "" then " where " ++ cond else "") ++
  (if sort ≠ "" then " order by " ++ sort ++ (if order ≠ "" then " " ++ order else "") else "") ++
  queryLimit offset count

/-- The count of `query`. -/
def queryCount (table cond : String) : String :=
  "select count(*) from " ++ table ++ (if cond ≠ "" then " where " ++ cond else "")

/-- `query`: the rows and their total. An error of the count is dropped, and the total is then
    the `count` that was passed. -/
def query (fields : List Column) (table cond sort order : String) (offset count : Int) :
    Act (Int × List Row) := do
  ask .connect
  let rows ← ask (.query (querySelect fields table cond sort order offset count) [])
  let total ← ExceptT.lift (ask (.query (queryCount table cond) [])).run
  match total with
  | .ok ((.int n :: _) :: _) => pure (n, rows)
  | _ => pure (count, rows)

/-- `orm.Stmt.Count` -/
def ormCount (s : Stmt) : Act Int := do
  scanInt (← ask (.query s.sqlCount []))

/-- `db.Query` in `orm.Stmt.Query`: an error carries the statement, and no row is an error. -/
def ormRows (sql : String) : Act (List Row) := do
  match ← (ExceptT.lift (ask (.query sql [])).run : Act (Answer (.query _ _))) with
  | .error e => throw (sql ++ ": " ++ e)
  | .ok [] => throw "not found"
  | .ok rows => pure rows

/-- `orm.Stmt.Query` -/
def ormQuery (s : Stmt) (fields : List OrmField) : Act (List Row) := ormRows (s.sqlQuery fields)

/-! ## interfaceAction -/

structure InterfaceAction where
  id : Int := 0
  state : Int := 0
  serviceID : Int := 0
  sort : String := ""
  order : String := ""
  page : Int := 0
  size : Int := 0
  search : String := ""

def InterfaceAction.fields : List (Util.Field InterfaceAction) :=
  [⟨"id", "", .int (·.id) fun v i => { i with id := v }⟩,
   ⟨"state", "", .int (·.state) fun v i => { i with state := v }⟩,
   ⟨"pid", "", .int (·.serviceID) fun v i => { i with serviceID := v }⟩,
   ⟨"sort", "", .str fun v i => { i with sort := v }⟩,
   ⟨"order", "", .str fun v i => { i with order := v }⟩,
   ⟨"offset", "", .int (·.page) fun v i => { i with page := v }⟩,
   ⟨"limit", "", .int (·.size) fun v i => { i with size := v }⟩,
   ⟨"search", "", .str fun v i => { i with search := v }⟩]

/-- The columns of `meta.Service`. -/
def serviceColumns : List Column :=
  [⟨"ID", ""⟩, ⟨"RoleID", ""⟩, ⟨"ResourceID", ""⟩, ⟨"ClusterID", ""⟩, ⟨"Name", ""⟩, ⟨"User", ""⟩,
   ⟨"Validate", ""⟩, ⟨"Email", ""⟩, ⟨"Path", ""⟩, ⟨"Source", ""⟩, ⟨"Version", ""⟩, ⟨"Comment", ""⟩,
   ⟨"CTime", "ctime"⟩, ⟨"MTime", "mtime"⟩]

/-- The fields of `meta.Interface`. -/
def interfaceFields : List OrmField :=
  [.column ⟨"ID", ""⟩, .column ⟨"Name", ""⟩, .column ⟨"User", ""⟩, .column ⟨"Email", ""⟩,
   .column ⟨"State", ""⟩, .one "Service" serviceColumns, .column ⟨"Path", ""⟩,
   .column ⟨"Method", ""⟩, .column ⟨"Backend", ""⟩, .column ⟨"Comment", ""⟩, .column ⟨"Level", ""⟩,
   .column ⟨"Ctime", ""⟩, .column ⟨"Mtime", ""⟩]

/-- The search condition of `interfaceAction.GET`. -/
def searchCond (search : String) : String :=
  let like := " like '%" ++ search ++ "%'"
  "(interface.name" ++ like ++ " or interface.user" ++ like ++ " or interface.comment" ++ like ++
    " or interface.path" ++ like ++ " or interface.backend" ++ like ++ ")"

/-- The statement `interfaceAction.GET` counts with: each `Where` replaces the one before. -/
def InterfaceAction.countStmt (i : InterfaceAction) : Stmt :=
  let s := (Stmt.new "interface").setWhere ("service_id=" ++ toString i.serviceID)
  let s := if i.state = 1 then s.setWhere "state=1" else s
  if i.search ≠ "" then s.setWhere (searchCond i.search) else s

/-- The statement `interfaceAction.GET` selects with; `Sort` goes into the order. -/
def InterfaceAction.listStmt (i : InterfaceAction) : Stmt :=
  let s := i.countStmt
  let s := if i.sort ≠ "" then { s with order := "interface." ++ i.sort } else s
  { s with offset := i.page, limit := i.size }

def InterfaceAction.get : Handler InterfaceAction where
  session := true
  badForm := .printf
  act u i :=
    onErr (getServiceResourceID i.serviceID) .printf fun resID =>
    match u.assert resID with
    | .error e => .done (.printf e)
    | .ok () =>
      onErr (ask .connect) .printf fun _ =>
      onErr (ormCount i.countStmt) .printf fun total =>
      onErr (ormQuery i.listStmt interfaceFields) (fun _ => .page 0 none) fun rows =>
      .done (.page total (some rows))

def InterfaceAction.delete : Handler InterfaceAction where
  session := false
  badForm := .status 500
  act _ i := onErr (del "interface" i.id) (.status 500) fun _ => .done (.status 0 "")

abbrev interfaceAction : Object where
  S := InterfaceAction
  zero := {}
  fields := InterfaceAction.fields
  methods
    | .GET => some InterfaceAction.get
    | .DELETE => some InterfaceAction.delete
    | _ => none

/-! ## role -/

structure Role where
  roleID : Int := 0
  name : String := ""
  user : String := ""
  email : String := ""
  comment : String := ""

def Role.fields : List (Util.Field Role) :=
  [⟨"role_id", "", .int (·.roleID) fun v r => { r with roleID := v }⟩,
   ⟨"name", "", .str fun v r => { r with name := v }⟩,
   ⟨"user", "", .str fun v r => { r with user := v }⟩,
   ⟨"email", "", .str fun v r => { r with email := v }⟩,
   ⟨"comment", "", .str fun v r => { r with comment := v }⟩]

/-- Only an administrator may name another user. -/
def Role.own (u : User) (r : Role) : Role :=
  if u.isAdmin then r else { r with user := u.user, email := u.email }

def Role.post : Handler Role where
  session := true
  badForm := .status 500
  settle := Role.own
  act _ r :=
    onErr (ask (.rbac (.postRole r.name r.comment r.user r.email))) (.status 500) fun id =>
    .done (.data (.id id))

def Role.put : Handler Role where
  session := true
  badForm := .status 500
  settle := Role.own
  act _ r :=
    onErr (ask (.rbac (.putRole r.roleID r.name r.comment))) (.status 500) fun _ =>
    .done (.data .null)

def Role.delete : Handler Role where
  session := false
  badForm := .status 500
  act _ r :=
    onErr (ask (.rbac (.deleteRole r.roleID ""))) (.status 500) fun _ => .done (.data .null)

abbrev role : Object where
  S := Role
  zero := {}
  fields := Role.fields
  methods
    | .GET => none
    | .POST => some Role.post
    | .PUT => some Role.put
    | .DELETE => some Role.delete

/-! ## roleUser -/

structure RoleUser where
  userID : Int := 0
  name : String := ""
  email : String := ""
  roleID : Int := 0
  sort : String := ""
  order : String := ""
  offset : Int := 0
  limit : Int := 0

def RoleUser.fields : List (Util.Field RoleUser) :=
  [⟨"user_id", "", .int (·.userID) fun v r => { r with userID := v }⟩,
   ⟨"name", "", .str fun v r => { r with name := v }⟩,
   ⟨"email", "", .str fun v r => { r with email := v }⟩,
   ⟨"role_id", "", .int (·.roleID) fun v r => { r with roleID := v }⟩,
   ⟨"sort", "", .str fun v r => { r with sort := v }⟩,
   ⟨"order", "", .str fun v r => { r with order := v }⟩,
   ⟨"offset", "", .int (·.offset) fun v r => { r with offset := v }⟩,
   ⟨"limit", "", .int (·.limit) fun v r => { r with limit := v }⟩]

def RoleUser.put : Handler RoleUser where
  session := false
  badForm := .status 500
  act _ r :=
    onErr (ask (.rbac (.putUser r.userID r.name r.email))) (.status 500) fun _ =>
    .done (.data .null)

def RoleUser.post : Handler RoleUser where
  session := false
  badForm := .status 500
  act _ r :=
    onErr (ask (.rbac (.postRoleUser r.roleID r.name r.email))) (.status 500) fun id =>
    .done (.data (.id id))

/-- The switch of `roleUser.GET` on the sort column. -/
def RoleUser.sortColumn (r : RoleUser) : RoleUser :=
  if r.sort = "RoleName" then { r with sort := "role.name" }
  else if r.sort = "RoleComment" then { r with sort := "role.comment" }
  else if r.sort = "Mtime" then { r with sort := "role_user.mtime" }
  else r

def RoleUser.get : Handler RoleUser where
  session := false
  badForm := .status 400
  settle _ r := r.sortColumn
  act _ r :=
    onErr (ask (.rbac (.getRoleUsers r.roleID))) (.status 500) fun rs =>
    .done (if rs.isEmpty then .status 404 "not found" else .data (.rows rs))

def RoleUser.delete : Handler RoleUser where
  session := true
  badForm := .status 500
  act _ r :=
    onErr (ask (.rbac (.deleteRoleUser r.roleID r.email))) (.status 500) fun _ =>
    .done (.data .null)

abbrev roleUser : Object where
  S := RoleUser
  zero := {}
  fields := RoleUser.fields
  methods
    | .GET => some RoleUser.get
    | .POST => some RoleUser.post
    | .PUT => some RoleUser.put
    | .DELETE => some RoleUser.delete

/-! ## resource and resourceRole -/

structure Resource where
  resourceID : Int := 0
  roleID : Int := 0

def Resource.fields : List (Util.Field Resource) :=
  [⟨"resourceID", "", .int (·.resourceID) fun v r => { r with resourceID := v }⟩,
   ⟨"roleID", "", .int (·.roleID) fun v r => { r with roleID := v }⟩]

def Resource.get : Handler Resource where
  session := true
  badForm := .status 400
  act u r :=
    if ¬ u.isAdmin ∧ r.resourceID = 0 then .done (.status 400 "resourceID is 0")
    else
      onErr (ask (.rbac (.getResourceRoles r.resourceID))) (.status 500) fun rs =>
      .done (.json (.rows rs))

def Resource.post : Handler Resource where
  session := false
  badForm := .status 500
  act _ r :=
    onErr (ask (.rbac (.postRoleResource r.roleID r.resourceID))) (.status 500) fun id =>
    .done (.data (.id id))

abbrev resource : Object where
  S := Resource
  zero := {}
  fields := Resource.fields
  methods
    | .GET => some Resource.get
    | .POST => some Resource.post
    | _ => none

structure ResourceRole where
  id : Int := 0
  resourceID : Int := 0
  roleID : Int := 0

def ResourceRole.fields : List (Util.Field ResourceRole) :=
  [⟨"id", "", .int (·.id) fun v r => { r with id := v }⟩,
   ⟨"resourceID", "", .int (·.resourceID) fun v r => { r with resourceID := v }⟩,
   ⟨"roleID", "", .int (·.roleID) fun v r => { r with roleID := v }⟩]

def ResourceRole.delete : Handler ResourceRole where
  session := false
  badForm := .status 500
  act _ r :=
    onErr (ask (.rbac (.deleteResourceRole r.resourceID r.roleID))) (.status 500) fun _ =>
    .done (.data .null)

abbrev resourceRole : Object where
  S := ResourceRole
  zero := {}
  fields := ResourceRole.fields
  methods
    | .DELETE => some ResourceRole.delete
    | _ => none

/-! ## appInfos, appInfo and serviceInfo -/

structure AppInfos where
  id : Int := 0
  name : String := ""
  email : String := ""
  sort : String := ""
  order : String := ""
  page : Int := 0
  size : Int := 0

def AppInfos.fields : List (Util.Field AppInfos) :=
  [⟨"interfaceID", "", .int (·.id) fun v a => { a with id := v }⟩,
   ⟨"name", "", .str fun v a => { a with name := v }⟩,
   ⟨"email", "", .str fun v a => { a with email := v }⟩,
   ⟨"sort", "", .str fun v a => { a with sort := v }⟩,
   ⟨"order", "", .str fun v a => { a with order := v }⟩,
   ⟨"offset", "", .int (·.page) fun v a => { a with page := v }⟩,
   ⟨"limit", "", .int (·.size) fun v a => { a with size := v }⟩]

/-- `where += " and "` when there is a condition already. -/
def andThen (cond : String) : String := if cond ≠ "" then cond ++ " and " else cond

def AppInfos.cond (a : AppInfos) : String :=
  let w := ""
  let w := if a.email ≠ "" then andThen w ++ "application.email like '%" ++ a.email ++ "%'" else w
  let w := if a.name ≠ "" then andThen w ++ "application.name like '%" ++ a.name ++ "%'" else w
  andThen w ++ "application.id not in (select application_id from relation " ++
    "where relation.interface_id = " ++ toString a.id ++ ")"

/-- The columns of `application` in `manager/app.go`. -/
def applicationColumns : List Column := [⟨"ID", ""⟩, ⟨"Name", ""⟩, ⟨"User", ""⟩, ⟨"Email", ""⟩]

def AppInfos.get : Handler AppInfos where
  session := false
  badForm := .printf
  act _ a :=
    onErr (query applicationColumns "application" a.cond a.sort a.order a.page a.size) .printf
      fun (total, apps) =>
    .done (if apps.isEmpty then .page 0 (some []) else .page total (some apps))

abbrev appInfos : Object where
  S := AppInfos
  zero := {}
  fields := AppInfos.fields
  methods
    | .GET => some AppInfos.get
    | _ => none

/-- The receivers with one id. -/
structure OneID where
  id : Int := 0

def OneID.fields (key : String) : List (Util.Field OneID) :=
  [⟨key, "", .int (·.id) fun v r => { r with id := v }⟩]

/-- `getApp` of `manager/db.go` -/
def getApp (id : Int) : Act Row := do
  ask .connect
  match ← ask
    (.query "select name, token, comment, ctime, mtime from application where id=?" [id]) with
  | [] => throw ("app " ++ toString id ++ " not found")
  | row :: _ => pure (.int id :: row)

def appInfoGet : Handler OneID where
  session := false
  badForm := .printf
  act _ a := onErr (getApp a.id) .printf fun p => .done (.json (.row p))

abbrev appInfo : Object where
  S := OneID
  zero := {}
  fields := OneID.fields "id"
  methods
    | .GET => some appInfoGet
    | _ => none

/-- The statement of `serviceInfo.GET`. -/
def serviceInfoStmt (id : Int) : Stmt :=
  ((Stmt.new "service").setWhere ("id=" ++ toString id)).one

def serviceInfoGet : Handler OneID where
  session := false
  badForm := .printf
  act _ p :=
    onErr (ask .connect) (fun _ => .status 500 "连接数据库出错") fun _ =>
    onErr (ormQuery (serviceInfoStmt p.id) (serviceColumns.map .column)) .printf fun rows =>
    .done (.json (.row (rows.headD [])))

abbrev serviceInfo : Object where
  S := OneID
  zero := {}
  fields := OneID.fields "id"
  methods
    | .GET => some serviceInfoGet
    | _ => none

/-! ## Statistics -/

def selectStats (id : Int) : Act (List Row) := do
  ask .connect
  ask (.query ("SELECT event_time , cnt, ROUND(cost / cnt) FROM stats " ++
    (if id > 0 then " where stats.iface_id = " ++ toString id ++ " " else "") ++
    "order by event_time desc limit 60;") [])

def statsSumGet : Handler OneID where
  session := false
  badForm := .status 400
  act _ s :=
    onErr (selectStats s.id) (fun _ => .status 404 "not found") fun ss => .done (.json (.rows ss))

abbrev statsSumAction : Object where
  S := OneID
  zero := {}
  fields := OneID.fields "interfaceID"
  methods
    | .GET => some statsSumGet
    | _ => none

/-- The statement of `selectTopApp`; without an id it ends after the `where`. -/
def selectTopAppSQL (ifaceID : Int) : String :=
  "SELECT a.id, a.name,a.user, i.id, i.name,i.user,p.id, p.name, sum(cnt) from stats as s," ++
  "interface as i, application as a, service as p where " ++
  (if ifaceID > 0 then
    "s.iface_id=" ++ toString ifaceID ++ " and app_id in (SELECT app_id from stats where " ++
    "iface_id = " ++ toString ifaceID ++ " and mtime > CURDATE()-interval 1 day GROUP BY app_id " ++
    "ORDER BY sum(cnt) desc) and s.iface_id = i.id and  i.service_id = p.id and a.id = s.app_id " ++
    "and s.mtime > CURDATE()-interval 1 day group by app_id order  by sum(cnt)"
  else "")

def selectTopApp (ifaceID : Int) : Act (List Row) := do
  ask .connect
  ask (.query (selectTopAppSQL ifaceID) [])

def statsTopGet : Handler OneID where
  session := false
  badForm := .status 400
  act _ s :=
    onErr (selectTopApp s.id) (fun _ => .status 404 "not found") fun as =>
    .done (.page as.length (some as))

abbrev statsTopApplication : Object where
  S := OneID
  zero := {}
  fields := OneID.fields "interfaceID"
  methods
    | .GET => some statsTopGet
    | _ => none

structure StatsErrors where
  id : Int := 0
  sort : String := ""
  order : String := ""
  page : Int := 0
  size : Int := 0

def StatsErrors.fields : List (Util.Field StatsErrors) :=
  [⟨"interfaceID", "", .int (·.id) fun v s => { s with id := v }⟩,
   ⟨"sort", "", .str fun v s => { s with sort := v }⟩,
   ⟨"order", "", .str fun v s => { s with order := v }⟩,
   ⟨"offset", "", .int (·.page) fun v s => { s with page := v }⟩,
   ⟨"limit", "", .int (·.size) fun v s => { s with size := v }⟩]

/-- The columns of `statsError`. -/
def statsErrorColumns : List Column :=
  [⟨"ID", ""⟩, ⟨"Session", ""⟩, ⟨"AppID", "app_id"⟩, ⟨"AppName", "application.name"⟩,
   ⟨"IfaceID", "iface_id"⟩, ⟨"IfaceName", "interface.name"⟩, ⟨"ServiceName", "service.name"⟩,
   ⟨"Info", ""⟩, ⟨"Ctime", ""⟩]

def StatsErrors.cond (s : StatsErrors) : String :=
  let w := "stats_error.app_id = application.id and stats_error.iface_id = interface.id " ++
    "and interface.service_id = service.id"
  if s.id ≠ 0 then " stats_error.iface_id = " ++ toString s.id ++ " and " ++ w else w

def StatsErrors.get : Handler StatsErrors where
  session := false
  badForm := .status 400
  act _ s :=
    onErr (query statsErrorColumns "stats_error,application,interface,service" s.cond s.sort
      s.order s.page s.size) (.status 400) fun (total, errs) =>
    .done (.page total (if errs.isEmpty then none else some errs))

abbrev statsErrors : Object where
  S := StatsErrors
  zero := {}
  fields := StatsErrors.fields
  methods
    | .GET => some StatsErrors.get
    | _ => none

end Doodle.Manager
