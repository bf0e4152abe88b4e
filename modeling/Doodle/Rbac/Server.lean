/-
  The rbac server: the functions of `rbac/*.go` over the statements of `Doodle.Rbac.Sql`, and the
  handlers of the user, role, resource and relation endpoints.

  The handlers decode the form into a struct of their own that starts at zero and has no `valid`
  tags, so a string field is the form value and an integer field is the parsed form value, or 0.
  `user/info` and `app` are left out, as are the functions no handler calls.
-/
import Doodle.Util.Decode
import Doodle.Util.Token
import Doodle.Rbac.Sql

namespace Doodle.Rbac

open Doodle.Lib Doodle.Util Doodle.Go

/-! ## Functions that write -/

section Writes

variable [Collating] (my : Mysql)

def userAdd (appID : Int) (name email : String) : Action Fault Db Int :=
  exec my (.addUser appID name email)

def roleUserAdd (appID roleID : Int) (name email : String) : Action Fault Db Int := do
  let uid ← userAdd my appID name email
  exec my (.addRoleUser appID roleID uid)

/-- The user is added a second time by `RoleUserAdd`. -/
def roleAdd (appID : Int) (name user email comments : String) : Action Fault Db Int := do
  let uid ← userAdd my appID user email
  let rid ← exec my (.addRole appID name uid comments)
  let _ ← roleUserAdd my appID rid user email
  pure rid

def resourceAdd (appID : Int) (name comments : String) : Action Fault Db Int :=
  exec my (.addResource appID name comments)

def roleResourceAdd (appID roleID resourceID : Int) : Action Fault Db Int :=
  exec my (.addRoleResource appID roleID resourceID)

def roleUpdate (appID roleID : Int) (name comments : String) : Action Fault Db Int :=
  exec my (.updateRole roleID appID name comments)

def userUpdate (appID userID : Int) (name email : String) : Action Fault Db Int :=
  exec my (.updateUser userID appID name email)

/-- Neither statement names the application. -/
def resourceDelete (resID : Int) : Action Fault Db Int := do
  let _ ← exec my (.deleteResource resID)
  exec my (.deleteGrants resID)

def roleUserDelete (appID roleID : Int) (email : String) : Action Fault Db Int :=
  exec my (.deleteMember appID roleID email)

def roleResourceDelete (appID roleID resourceID : Int) : Action Fault Db Int :=
  exec my (.deleteGrant appID roleID resourceID)

/-- The two deletes of `role` DELETE. An id goes before a name; the delete by id does not name
    the application. With neither, the first delete ends after `where`. -/
def roleDelete (appID id : Int) (name : String) : Action Fault Db Int :=
  if id ≠ 0 then do
    let _ ← exec my (.deleteMembers appID (some (.id id)))
    exec my (.deleteRole appID (.id id))
  else if name ≠ "" then do
    let _ ← exec my (.deleteMembers appID (some (.name name)))
    exec my (.deleteRole appID (.name name))
  else exec my (.deleteMembers appID none)

end Writes

/-! ## Functions that read -/

/-- The page a request asks for. -/
structure Page where
  sort : String
  order : String
  offset : Int
  limit : Int

/-- The page of a query. -/
def Page.of (p : Page) (q : Query String) : Select := ⟨q, p.sort, p.order, p.offset, p.limit⟩

/-- An email clause is written unless the email is empty. -/
def emailClause (email : String) : Option String := if email ≠ "" then some email else none

/-- `if total == 0 || len(rs) == 0 { return 0, nil, nil }` -/
def orNone : Int × List Row → Int × List Row
  | (total, rs) => if total = 0 ∨ rs = [] then (0, []) else (total, rs)

section Reads

variable [Collating] (my : Mysql)

def resourceGet (appID : Int) (resID : List Int) (db : Db) : Except Fault (List Row) :=
  (query my ⟨.resourcesIn appID resID, "", "", 0, 0⟩ db).map (·.2)

def resourceQuery (appID resID : Int) (p : Page) (db : Db) : Except Fault (Int × List Row) :=
  query my (p.of (.resources appID resID)) db

def relationRoleUserQuery (appID roleID : Int) (email : String) (p : Page) (db : Db) :
    Except Fault (Int × List Row) :=
  (query my (p.of (.roleUsers appID roleID (emailClause email))) db).map orNone

def roleResourceQuery (appID resID roleID : Int) (p : Page) (db : Db) :
    Except Fault (Int × List Row) :=
  (query my (p.of (.roleResources appID resID roleID)) db).map orNone

/-- The application is not used. -/
def unrelatedResourceRoles (_appID resourceID : Int) (email : String) (p : Page) (db : Db) :
    Except Fault (Int × List Row) :=
  (query my (p.of (.unrelated resourceID (emailClause email))) db).map orNone

/-- The column of the one-column select. -/
def Row.resourceID? : Row → Option Int
  | .id n => some n
  | _ => none

def userResourceGet (appID : Int) (email : String) (db : Db) : Except Fault (List Int) :=
  (queryAll my (.resourceIDs appID email) db).map fun rows => rows.filterMap Row.resourceID?

end Reads

/-! ## Requests and responses -/

/-- A request: what the form decodes from, the query of its URL, and the token header. -/
structure Request where
  form : Util.Request
  url : List (String × String)
  token : String

/-- A string field. -/
def Request.text (q : Request) (key : String) : String := q.form.formValue key

/-- An integer field of a struct that starts at zero. -/
def Request.int (q : Request) (key : String) : Int := (q.form.int? key).getD 0

/-- `r.URL.Query().Get` -/
def Request.urlGet (q : Request) (key : String) : String :=
  ((q.url.find? fun kv => kv.1 == key).map Prod.snd).getD ""

def Request.page (q : Request) : Page :=
  ⟨q.text "sort", q.text "order", q.int "offset", q.int "limit"⟩

inductive Msg where
  | text (s : String)
  | fault (f : Fault)
  deriving DecidableEq, Repr

/-- What a handler writes. -/
inductive Resp where
  /-- `SendResponse(w, status, message)` -/
  | status (code : Int) (m : Msg)
  /-- `SendResponseOK(w)` -/
  | ok
  /-- `SendResponseData(w, id)` -/
  | id (n : Int)
  /-- `SendResponseData(w, rows)` -/
  | data (rows : List Row)
  /-- `SendData(w, rows)` -/
  | raw (rows : List Row)
  /-- `SendRows(w, total, rows)` -/
  | page (total : Int) (rows : List Row)
  /-- a panic, which the server recovers from -/
  | abort
  deriving DecidableEq, Repr

/-- The rows of a response. -/
def Resp.rows : Resp → List Row
  | .data rows => rows
  | .raw rows => rows
  | .page _ rows => rows
  | _ => []

/-- `parseToken` -/
def parseToken (C : Crypto) (token : String) : Res String Int :=
  match aesDecrypt C token aesKey with
  | .err e => .err ("token:" ++ token ++ ", error:" ++ e ++ ": invalid token")
  | .panic p => .panic p
  | .ok buf =>
    let (id, n) := varint buf
    if n < 1 then .err ("invalid token " ++ token) else .ok id

theorem parseToken_ok_iff (C : Crypto) (token : String) (appID : Int) :
    parseToken C token = .ok appID ↔ tokenID C token = some appID := by
  unfold parseToken tokenID
  cases aesDecrypt C token aesKey with
  | err e => simp
  | panic p => simp
  | ok buf =>
    dsimp only
    by_cases hn : (varint buf).2 < 1
    · simp [hn]
    · simp [hn]

variable [Collating]

/-- A handler: the response and the database after it. -/
abbrev Handler := Db → Resp × Db

/-- A handler that only reads. -/
def reading (f : Db → Resp) : Handler := fun db => (f db, db)

/-- `DecodeRequestValue`: a form that does not parse is answered with `code`. -/
def withForm (q : Request) (code : Int) (k : Handler) : Handler :=
  match q.form.formErr with
  | some e => reading fun _ => .status code (.text e)
  | none => k

/-- `parseToken`, answered with 400 on an error. -/
def withToken (C : Crypto) (q : Request) (k : Int → Handler) : Handler :=
  match parseToken C q.token with
  | .ok appID => k appID
  | .err e => reading fun _ => .status 400 (.text e)
  | .panic _ => reading fun _ => .abort

/-- Answer an error with `code`, a value with `good`. -/
def answer {α : Type} (x : Except Fault α) (code : Int) (good : α → Resp) : Resp :=
  match x with
  | .error f => .status code (.fault f)
  | .ok a => good a

/-- Answer a write: an error with `code`, a result with `good`. -/
def written (x : Action Fault Db Int) (code : Int) (good : Int → Resp) : Handler :=
  x.onErr (fun f => .status code (.fault f)) fun n db => (good n, db)

/-- The error of `strconv.ParseInt`: digits that do not parse are out of range. -/
def parseIntError (s : String) : String :=
  "strconv.ParseInt: parsing \"" ++ s ++ "\": " ++
    (if (readNumber s).isSome then "value out of range" else "invalid syntax")

/-- The message of an empty result. -/
def notFound : Resp := .status 404 (.text "not found")

/-! ## Handlers that read -/

section Handlers

variable (C : Crypto) (my : Mysql) (q : Request)

/-- An error of `parseToken` is dropped, and the application id is then 0. -/
def userGET : Handler :=
  withForm q 400 <|
    let get := fun appID => reading fun db =>
      answer (query my (q.page.of (.users appID)) db) 500 fun (total, us) =>
        if total = 0 ∨ us = [] then notFound else .data us
    match parseToken C q.token with
    | .ok appID => get appID
    | .err _ => get 0
    | .panic _ => reading fun _ => .abort

def roleGET : Handler :=
  withForm q 400 <| withToken C q fun appID => reading fun db =>
    if q.int "query" = 0 then
      answer (queryAll my (.roleByID appID (q.text "role_id")) db) 400 .data
    else
      answer (query my (q.page.of (.roles appID)) db) 500 fun (total, rs) => .page total rs

def resourceGET : Handler :=
  withForm q 400 <| withToken C q fun appID => reading fun db =>
    if q.int "query" = 0 then
      answer (resourceGet my appID [q.int "id"] db) 400 .data
    else
      answer (resourceQuery my appID 0 q.page db) 500 fun (total, rs) =>
        if total = 0 ∨ rs = [] then notFound else .data rs

/-- The end of the relation queries: the rows alone when `alone` holds, otherwise with a total. -/
def relationResp (alone : Bool) : Int × List Row → Resp
  | (total, rs) => if rs = [] then notFound else if alone then .raw rs else .page total rs

def roleUserGET : Handler :=
  withForm q 400 <| withToken C q fun appID => reading fun db =>
    answer (relationRoleUserQuery my appID (q.int "role_id") (q.text "email") q.page db) 400
      (relationResp (q.int "query" = 0))

def roleResourceGET : Handler :=
  withForm q 400 <| withToken C q fun appID => reading fun db =>
    answer (roleResourceQuery my appID (q.int "resource_id") (q.int "role_id") q.page db) 400
      (relationResp (q.int "api" = 1))

def userRoleGET : Handler :=
  withForm q 400 <| withToken C q fun appID => reading fun db =>
    answer (relationRoleUserQuery my appID 0 (q.text "email") q.page db) 400
      (relationResp (q.int "query" = 0))

def unrelatedGET : Handler :=
  withForm q 400 <| withToken C q fun appID => reading fun db =>
    answer (unrelatedResourceRoles my appID (q.int "resource_id") (q.text "email") q.page db) 400
      (relationResp (q.int "query" = 0))

/-- The email comes from the URL; no form is decoded. -/
def userResourceGET : Handler :=
  withToken C q fun appID => reading fun db =>
    answer (userResourceGet my appID (q.urlGet "email") db) 400 fun ids =>
      if ids = [] then .raw [] else answer (resourceGet my appID ids db) 400 .raw

/-! ## Handlers that write -/

def userPUT : Handler :=
  withForm q 500 <| withToken C q fun appID =>
    written (userUpdate my appID (q.int "user_id") (q.text "name") (q.text "email")) 400 fun _ => .ok

def userPOST : Handler :=
  withForm q 500 <| withToken C q fun appID =>
    written (userAdd my appID (q.text "name") (q.text "email")) 500 .id

def rolePOST : Handler :=
  withForm q 500 <| withToken C q fun appID =>
    written (roleAdd my appID (q.text "name") (q.text "user") (q.text "email")
      (q.text "comments")) 500 .id

def rolePUT : Handler :=
  withForm q 500 <| withToken C q fun appID =>
    written (roleUpdate my appID (q.int "role_id") (q.text "name") (q.text "comments")) 400
      fun _ => .ok

def roleDELETE : Handler :=
  withForm q 400 <| withToken C q fun appID =>
    written (roleDelete my appID (q.int "role_id") (q.text "name")) 500 fun _ => .ok

def roleUserPOST : Handler :=
  withForm q 500 <| withToken C q fun appID =>
    written (roleUserAdd my appID (q.int "role_id") (q.text "name") (q.text "email")) 500 .id

def roleUserDELETE : Handler :=
  withForm q 500 <| withToken C q fun appID =>
    written (roleUserDelete my appID (q.int "role_id") (q.text "email")) 500 fun _ => .ok

def roleResourcePOST : Handler :=
  withForm q 500 <| withToken C q fun appID =>
    written (roleResourceAdd my appID (q.int "role_id") (q.int "resource_id")) 500 .id

def roleResourceDELETE : Handler :=
  withForm q 400 <| withToken C q fun appID =>
    written (roleResourceDelete my appID (q.int "role_id") (q.int "resource_id")) 400 fun _ => .ok

def resourcePOST : Handler :=
  withForm q 500 <| withToken C q fun appID =>
    written (resourceAdd my appID (q.text "Name") (q.text "Comments")) 500 .id

/-- The id comes from the URL; no form is decoded. -/
def resourceDELETE : Handler :=
  withToken C q fun _ =>
    match parseInt (q.urlGet "id") with
    | none => reading fun _ => .status 500 (.text (parseIntError (q.urlGet "id")))
    | some id => written (resourceDelete my id) 500 fun _ => .ok

end Handlers

/-! ## Endpoints -/

/-- The endpoints that read. -/
inductive ReadEndpoint where
  | userGET | roleGET | resourceGET | roleUserGET | roleResourceGET | userRoleGET
  | userResourceGET | unrelatedGET
  deriving DecidableEq, Repr

/-- The endpoints that write. -/
inductive WriteEndpoint where
  | userPUT | userPOST | rolePOST | rolePUT | roleDELETE | roleUserPOST | roleUserDELETE
  | roleResourcePOST | roleResourceDELETE | resourcePOST | resourceDELETE
  deriving DecidableEq, Repr

def ReadEndpoint.handler : ReadEndpoint → Crypto → Mysql → Request → Handler
  | .userGET => Rbac.userGET
  | .roleGET => Rbac.roleGET
  | .resourceGET => Rbac.resourceGET
  | .roleUserGET => Rbac.roleUserGET
  | .roleResourceGET => Rbac.roleResourceGET
  | .userRoleGET => Rbac.userRoleGET
  | .userResourceGET => Rbac.userResourceGET
  | .unrelatedGET => Rbac.unrelatedGET

def WriteEndpoint.handler : WriteEndpoint → Crypto → Mysql → Request → Handler
  | .userPUT => Rbac.userPUT
  | .userPOST => Rbac.userPOST
  | .rolePOST => Rbac.rolePOST
  | .rolePUT => Rbac.rolePUT
  | .roleDELETE => Rbac.roleDELETE
  | .roleUserPOST => Rbac.roleUserPOST
  | .roleUserDELETE => Rbac.roleUserDELETE
  | .roleResourcePOST => Rbac.roleResourcePOST
  | .roleResourceDELETE => Rbac.roleResourceDELETE
  | .resourcePOST => Rbac.resourcePOST
  | .resourceDELETE => Rbac.resourceDELETE

end Doodle.Rbac
