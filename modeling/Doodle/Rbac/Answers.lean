/-
  The answers of the rbac server and what the client makes of them.

  The server answers in four shapes: the rows as a bare array, the rows with their total, the rows
  as the data of a status object, and a status object without rows. Five of the client's methods
  that return rows take an array and nothing else; `GetResource` takes a status object and returns
  the first row of its data. `outcome` is such a method from its request to its result, through the
  handlers of `Doodle.Rbac.Server`.

  `delivers_iff`: when the queries of the handler succeed, the method returns their rows exactly when
  there are some; only `GetUserResources` also returns that there are none. Without rows
  `GetResource` panics and the others fail, as they do when an email smuggles `query` into the URL.
-/
import Doodle.Go.Json
import Doodle.Rbac.Client

namespace Doodle.Rbac.Client

open Doodle.Go Doodle.Util Doodle.Lib

/-! ## Rows in JSON -/

/-- The structs the rows are scanned into. -/
inductive Kind where
  | user | role | resource | roleUser | roleResource | id
  deriving DecidableEq

def kindOf : Row → Kind
  | .user _ => .user
  | .role _ => .role
  | .resource _ => .resource
  | .roleUser _ => .roleUser
  | .roleResource _ => .roleResource
  | .id _ => .id

def userMembers : List (Json.Member User) :=
  [.int "ID" (·.id) fun n u => { u with id := n },
    .int "AppID" (·.appID) fun n u => { u with appID := n },
    .str "Name" (·.name) fun s u => { u with name := s },
    .str "Email" (·.email) fun s u => { u with email := s },
    .str "Ctime" (·.ctime) fun s u => { u with ctime := s },
    .str "Mtime" (·.mtime) fun s u => { u with mtime := s }]

def roleMembers : List (Json.Member Role) :=
  [.int "ID" (·.id) fun n r => { r with id := n },
    .int "AppID" (·.appID) fun n r => { r with appID := n },
    .str "Name" (·.name) fun s r => { r with name := s },
    .int "UserID" (·.userID) fun n r => { r with userID := n },
    .str "Comments" (·.comments) fun s r => { r with comments := s },
    .str "Ctime" (·.ctime) fun s r => { r with ctime := s },
    .str "Mtime" (·.mtime) fun s r => { r with mtime := s }]

def resourceMembers : List (Json.Member Resource) :=
  [.int "ID" (·.id) fun n r => { r with id := n },
    .int "AppID" (·.appID) fun n r => { r with appID := n },
    .str "Name" (·.name) fun s r => { r with name := s },
    .str "Comments" (·.comments) fun s r => { r with comments := s },
    .str "Ctime" (·.ctime) fun s r => { r with ctime := s },
    .str "Mtime" (·.mtime) fun s r => { r with mtime := s }]

def roleUserMembers : List (Json.Member RoleUser) :=
  [.int "ID" (·.id) fun n r => { r with id := n },
    .int "AppID" (·.appID) fun n r => { r with appID := n },
    .int "AdminID" (·.adminID) fun n r => { r with adminID := n },
    .int "UserID" (·.userID) fun n r => { r with userID := n },
    .str "UserName" (·.userName) fun s r => { r with userName := s },
    .str "UserEmail" (·.userEmail) fun s r => { r with userEmail := s },
    .int "RoleID" (·.roleID) fun n r => { r with roleID := n },
    .str "RoleName" (·.roleName) fun s r => { r with roleName := s },
    .str "RoleComments" (·.roleComments) fun s r => { r with roleComments := s },
    .str "Ctime" (·.ctime) fun s r => { r with ctime := s },
    .str "Mtime" (·.mtime) fun s r => { r with mtime := s }]

def roleResourceMembers : List (Json.Member RoleResource) :=
  [.int "ID" (·.id) fun n r => { r with id := n },
    .int "AppID" (·.appID) fun n r => { r with appID := n },
    .int "ResourceID" (·.resourceID) fun n r => { r with resourceID := n },
    .str "ResourceName" (·.resourceName) fun s r => { r with resourceName := s },
    .int "RoleID" (·.roleID) fun n r => { r with roleID := n },
    .str "RoleName" (·.roleName) fun s r => { r with roleName := s },
    .str "RoleComments" (·.roleComments) fun s r => { r with roleComments := s },
    .str "Ctime" (·.ctime) fun s r => { r with ctime := s },
    .str "Mtime" (·.mtime) fun s r => { r with mtime := s }]

def rowJson : Row → Json
  | .user u => Json.writeStruct userMembers u
  | .role r => Json.writeStruct roleMembers r
  | .resource r => Json.writeStruct resourceMembers r
  | .roleUser r => Json.writeStruct roleUserMembers r
  | .roleResource r => Json.writeStruct roleResourceMembers r
  | .id n => .num n

/-- Unmarshal into a zero struct. -/
def readRow : Kind → Json → Option Row
  | .user, j => (Json.readStruct userMembers ⟨0, 0, "", "", "", ""⟩ j).map .user
  | .role, j => (Json.readStruct roleMembers ⟨0, 0, "", 0, "", "", ""⟩ j).map .role
  | .resource, j => (Json.readStruct resourceMembers ⟨0, 0, "", "", "", ""⟩ j).map .resource
  | .roleUser, j =>
    (Json.readStruct roleUserMembers ⟨0, 0, 0, 0, "", "", 0, "", "", "", ""⟩ j).map .roleUser
  | .roleResource, j =>
    (Json.readStruct roleResourceMembers ⟨0, 0, 0, "", 0, "", "", "", ""⟩ j).map .roleResource
  | .id, j => (Json.setInt 0 j).map .id

theorem readRow_rowJson (r : Row) : readRow (kindOf r) (rowJson r) = some r := by
  cases r with
  | user u =>
    simp only [kindOf, readRow, rowJson]
    rw [Json.readStruct_writeStruct (by decide)]
    simp only [userMembers, List.foldl_cons, List.foldl_nil, Json.Member.copy, Option.map_some]
  | role r =>
    simp only [kindOf, readRow, rowJson]
    rw [Json.readStruct_writeStruct (by decide)]
    simp only [roleMembers, List.foldl_cons, List.foldl_nil, Json.Member.copy, Option.map_some]
  | resource r =>
    simp only [kindOf, readRow, rowJson]
    rw [Json.readStruct_writeStruct (by decide)]
    simp only [resourceMembers, List.foldl_cons, List.foldl_nil, Json.Member.copy, Option.map_some]
  | roleUser r =>
    simp only [kindOf, readRow, rowJson]
    rw [Json.readStruct_writeStruct (by decide)]
    simp only [roleUserMembers, List.foldl_cons, List.foldl_nil, Json.Member.copy, Option.map_some]
  | roleResource r =>
    simp only [kindOf, readRow, rowJson]
    rw [Json.readStruct_writeStruct (by decide)]
    simp only [roleResourceMembers, List.foldl_cons, List.foldl_nil, Json.Member.copy,
      Option.map_some]
  | id n => rfl

/-! ## What the server writes -/

/-- `server.Response`: an empty message and missing data are left out. -/
def response (status : Int) (message : String) (data : Option Json) : Json :=
  .obj ([("Status", .num status)] ++ (if message = "" then [] else [("Message", .str message)]) ++
    (data.map fun d => ("Data", d)).toList)

/-- `err.Error()` -/
def message (errText : Fault → String) : Msg → String
  | .text s => s
  | .fault f => errText f

/-- The body the client reads. Every answer has status 200, except that of a panic. -/
def body (isNil : Bool) (errText : Fault → String) : Resp → Res String Json
  | .status code m => .ok (response code (message errText m) none)
  | .ok => .ok (response 0 "" none)
  | .id n => .ok (response 0 "" (some (.num n)))
  | .data rows => .ok (response 0 "" (some (Json.sliceJson isNil rowJson rows)))
  | .raw rows => .ok (Json.sliceJson isNil rowJson rows)
  | .page total rows =>
    .ok (.obj [("total", .num total), ("rows", Json.sliceJson isNil rowJson rows)])
  | .abort => .err "HTTP Status 500"

/-! ## The methods that return rows -/

inductive ListCall where
  | getUserResources (email : Text)
  | getUserRoles (email : Text)
  | getRoleUsers (roleID : Int64)
  | getResourceRoles (resID : Int64)
  | getResourceRolesUnrelated (resID : Int64) (email : Text)
  | getResource (resID : Int64)

namespace ListCall

def call : ListCall → Call
  | getUserResources email => .getUserResources email
  | getUserRoles email => .getUserRoles email
  | getRoleUsers roleID => .getRoleUsers roleID
  | getResourceRoles resID => .getResourceRoles resID
  | getResourceRolesUnrelated resID email => .getResourceRolesUnrelated resID email
  | getResource resID => .getResource resID

/-- The handler its request goes to (`getHandler_call`). -/
def endpoint : ListCall → ReadEndpoint
  | getUserResources _ => .userResourceGET
  | getUserRoles _ => .userRoleGET
  | getRoleUsers _ => .roleUserGET
  | getResourceRoles _ => .roleResourceGET
  | getResourceRolesUnrelated _ _ => .unrelatedGET
  | getResource _ => .resourceGET

/-- The email it splices into the URL. -/
def email? : ListCall → Option Text
  | getUserResources email => some email
  | getUserRoles email => some email
  | getResourceRolesUnrelated _ email => some email
  | _ => none

/-- The struct the method reads its rows into. -/
def kind : ListCall → Kind
  | getUserResources _ => .resource
  | getUserRoles _ => .roleUser
  | getRoleUsers _ => .roleUser
  | getResourceRoles _ => .roleResource
  | getResourceRolesUnrelated _ _ => .role
  | getResource _ => .resource

end ListCall

/-- The struct `GetResource` reads a status object into. -/
structure Envelope where
  status : Int
  message : String
  data : List Row

def Envelope.load (e : Envelope) : String × Json → Option Envelope
  | ("Status", v) => (Json.setInt e.status v).map fun n => { e with status := n }
  | ("Message", v) => (Json.setStr e.message v).map fun s => { e with message := s }
  | ("Data", v) => (Json.readSlice (readRow .resource) v).map fun rows => { e with data := rows }
  | _ => some e

def readEnvelope : Json → Option Envelope
  | .null => some ⟨0, "", []⟩
  | .obj vs => vs.foldlM Envelope.load ⟨0, "", []⟩
  | _ => none

/-- The error of `json.Unmarshal`. -/
def unmarshalError : String := "json: cannot unmarshal"

/-- What the method makes of a body. -/
def ListCall.read : ListCall → Json → Res String (List Row)
  | getResource _, j =>
    match readEnvelope j with
    | none => .err unmarshalError
    | some e =>
      if e.status ≠ 0 then .err e.message
      else
        -- `r.Data[0]`
        match e.data with
        | [] => .panic "runtime error: index out of range"
        | r :: _ => .ok [r]
  | c, j =>
    match Json.readSlice (readRow c.kind) j with
    | none => .err unmarshalError
    | some rows => .ok rows

theorem readSlice_rows {k : Kind} {rows : List Row} (hkind : ∀ r ∈ rows, kindOf r = k)
    (isNil : Bool) :
    Json.readSlice (readRow k) (Json.sliceJson isNil rowJson rows) = some rows := by
  refine Json.readSlice_sliceJson (fun r hr => ?_) isNil
  rw [← hkind r hr]
  exact readRow_rowJson r

theorem readEnvelope_response {rows : List Row} (hkind : ∀ r ∈ rows, kindOf r = .resource)
    (isNil : Bool) :
    readEnvelope (response 0 "" (some (Json.sliceJson isNil rowJson rows))) =
      some ⟨0, "", rows⟩ := by
  simp [response, readEnvelope, Envelope.load, Json.setInt, readSlice_rows hkind]

/-! ## What the server's queries produce -/

/-- The struct a query is scanned into. -/
def queryKind {ν : Type} : Query ν → Kind
  | .users _ => .user
  | .roles _ => .role
  | .roleByID _ _ => .role
  | .resources _ _ => .resource
  | .resourcesIn _ _ => .resource
  | .roleUsers _ _ _ => .roleUser
  | .roleResources _ _ _ => .roleResource
  | .unrelated _ _ => .role
  | .resourceIDs _ _ => .id

theorem queryKind_parse {q : Query String} {w : Query Int} (h : q.parse = .ok w) :
    queryKind w = queryKind q := by
  cases q with
  | resourcesIn appID ids =>
    cases ids with
    | nil => cases h
    | cons id ids =>
      cases h
      rfl
  | roleByID appID id =>
    obtain ⟨n, -, rfl⟩ := except_map_ok h
    rfl
  | roleUsers appID roleID email =>
    obtain ⟨n, -, rfl⟩ := except_map_ok h
    rfl
  | unrelated resourceID email =>
    obtain ⟨n, -, rfl⟩ := except_map_ok h
    rfl
  | resourceIDs appID email =>
    obtain ⟨n, -, rfl⟩ := except_map_ok h
    rfl
  | _ =>
    cases h
    rfl

section Collated

variable [Collating]

/-- A MySQL whose rows are scanned into the struct of the query, whatever the query became. -/
structure Scanned extends Mysql where
  kind_stray : ∀ s db rows, straySelect s db = .ok rows → ∀ r ∈ rows, kindOf r = queryKind s.query

/-- `Mysql.steady` finds nothing astray. -/
def Scanned.steady (bad : Db) : Scanned where
  toMysql := Mysql.steady bad
  kind_stray _ _ rows h r hr := by
    cases h
    cases hr

theorem kind_rows {w : Query Int} {db : Db} {rows : List Row} (h : w.rows db = .ok rows) :
    ∀ r ∈ rows, kindOf r = queryKind w := by
  have hmap : ∀ {α : Type} {f : α → Row} {k : Kind} (l : List α), (∀ a, kindOf (f a) = k) →
      ∀ r ∈ l.map f, kindOf r = k := by
    intro α f k l hf r hr
    obtain ⟨a, -, rfl⟩ := List.mem_map.mp hr
    exact hf a
  cases w with
  | unrelated resourceID email =>
    cases email with
    | none =>
      cases h
      exact hmap _ fun _ => rfl
    | some email =>
      obtain ⟨owner, -, rfl⟩ := except_map_ok h
      exact hmap _ fun _ => rfl
  | _ =>
    cases h
    exact hmap _ fun _ => rfl

theorem kind_select {my : Scanned} {s : Select} {db : Db} {rows : List Row}
    (h : select my.toMysql s db = .ok rows) : ∀ r ∈ rows, kindOf r = queryKind s.query := by
  unfold select at h
  split at h
  · cases h
  · split at h
    · next w hw =>
      obtain ⟨rows', hrows, rfl⟩ := except_map_ok h
      intro r hr
      have hmem : r ∈ rows' := by
        refine ((my.arrange_perm s rows').mem_iff).mp ?_
        unfold Select.page at hr
        split at hr
        · exact List.mem_of_mem_drop (List.mem_of_mem_take hr)
        · exact hr
      rw [kind_rows hrows r hmem]
      unfold Select.parse at hw
      split at hw
      · cases hw
      · next w' hw' =>
        split at hw
        · cases hw
        · split at hw
          · cases hw
          · cases hw
            exact queryKind_parse hw'
    · exact my.kind_stray s db rows h
    · cases h

/-- The rows of a select and their count, when both queries succeed. -/
def found (my : Mysql) (s : Select) (db : Db) : Option (Int × List Row) :=
  match select my s db, count my s.query db with
  | .ok rows, .ok n => some (n, rows)
  | _, _ => none

theorem found_eq_some {my : Mysql} {s : Select} {db : Db} {n : Int} {rows : List Row} :
    found my s db = some (n, rows) ↔ select my s db = .ok rows ∧ count my s.query db = .ok n := by
  unfold found
  split
  · next rows' n' hrows hn =>
    rw [hrows, hn]
    simp [and_comm]
  · next hno =>
    refine iff_of_false (by simp) ?_
    rintro ⟨hrows, hn⟩
    exact hno rows n hrows hn

theorem query_of_found {my : Mysql} {s : Select} {db : Db} {n : Int} {rows : List Row}
    (h : found my s db = some (n, rows)) : query my s db = .ok (n, rows) := by
  obtain ⟨hrows, hn⟩ := found_eq_some.mp h
  simp only [query, total, hrows, hn, Except.map]

/-- The resources of `userResource` GET. -/
def userResources (my : Mysql) (appID : Int) (email : String) (db : Db) : Except Fault (List Row) :=
  match userResourceGet my appID email db with
  | .error f => .error f
  | .ok ids => if ids = [] then .ok [] else resourceGet my appID ids db

namespace ListCall

/-- The handler answers a form that does not parse before it queries; one handler decodes none. -/
def Parsed (q : Rbac.Request) : ListCall → Prop
  | getUserResources _ => True
  | _ => q.form.formErr = none

/-- What the queries of the handler produce, and their count; `none` when one of them fails. A
    count that is not looked at is that of the rows. -/
def queries (my : Mysql) (appID : Int) (q : Rbac.Request) (db : Db) :
    ListCall → Option (Int × List Row)
  | getUserResources _ =>
    (userResources my appID (q.urlGet "email") db).toOption.map fun rows => (rows.length, rows)
  | getUserRoles _ =>
    found my (q.page.of (.roleUsers appID 0 (emailClause (q.text "email")))) db
  | getRoleUsers _ =>
    found my (q.page.of (.roleUsers appID (q.int "role_id") (emailClause (q.text "email")))) db
  | getResourceRoles _ =>
    found my (q.page.of (.roleResources appID (q.int "resource_id") (q.int "role_id"))) db
  | getResourceRolesUnrelated _ _ =>
    found my (q.page.of (.unrelated (q.int "resource_id") (emailClause (q.text "email")))) db
  | getResource _ =>
    (resourceGet my appID [q.int "id"] db).toOption.map fun rows => (rows.length, rows)

/-- The request asks for the rows alone. -/
def bare (q : Rbac.Request) : ListCall → Bool
  | getResourceRoles _ => q.int "api" = 1
  | _ => q.int "query" = 0

/-- What the handler answers. -/
def resp (q : Rbac.Request) (n : Int) (rows : List Row) : ListCall → Resp
  | getUserResources _ => .raw rows
  | getResource _ => .data rows
  | c => relationResp (c.bare q) (orNone (n, rows))

end ListCall

/-- The handler decodes the request and its token, and its queries produce the rows. -/
def Produced (C : Crypto) (my : Mysql) (q : Rbac.Request) (db : Db) (c : ListCall) (n : Int)
    (rows : List Row) : Prop :=
  c.Parsed q ∧ ∃ appID, parseToken C q.token = .ok appID ∧ c.queries my appID q db = some (n, rows)

/-! ## What the client returns -/

/-- The rows as they are; the one method that returns a single row has an error for none. -/
def ListCall.Right (rows : List Row) (result : Res String (List Row)) : ListCall → Prop
  | getResource _ => if rows = [] then ∃ e, result = .err e else result = .ok rows
  | _ => result = .ok rows

/-- There are rows, and the request asks for them alone. The rows of `getUserResources` need not
    be there. -/
def ListCall.Fits (q : Rbac.Request) (n : Int) (rows : List Row) : ListCall → Prop
  | getUserResources _ => True
  | getResource _ => rows ≠ []
  | c => n ≠ 0 ∧ rows ≠ [] ∧ c.bare q = true

section Outcome

variable (C : Crypto) (my : Scanned) (isNil : Bool) (errText : Fault → String)
  (taken : List Char → Bool) (token : String) (db : Db)

/-- A method from its request to its result. -/
def ListCall.outcome (c : ListCall) : Res String (List Row) :=
  match c.call.sent.arrive taken token with
  | none => .err "malformed request"
  | some q => (body isNil errText (c.endpoint.handler C my.toMysql q db).1).bind c.read

/-- The method returns what the queries of the server produced. -/
def Delivers (c : ListCall) : Prop :=
  ∀ q n rows, c.call.sent.arrive taken token = some q → Produced C my.toMysql q db c n rows →
    c.Right rows (c.outcome C my isNil errText taken token db)

end Outcome

end Collated

/-! ## The request that arrives -/

section Arrive

variable {taken : List Char → Bool} {token : String} {q : Rbac.Request}

theorem arrive_decimal {c : Call} (hbody : c.sent.body = [])
    (hsafe : ∀ kv ∈ c.sent.query, Safe kv.2) (h : c.sent.arrive taken token = some q) :
    q = ⟨⟨none, c.sent.query⟩, c.sent.query, token⟩ := by
  rw [eq_request_of_arrive h]
  exact request_of_safe hbody plainKey_of_mem hsafe

/-- A method without an email asks for the rows alone. -/
theorem bare_of_arrive {c : ListCall} (hmail : c.email? = none)
    (h : c.call.sent.arrive taken token = some q) : c.bare q = true := by
  cases c with
  | getUserResources email => cases hmail
  | getUserRoles email => cases hmail
  | getResourceRolesUnrelated resID email => cases hmail
  | getRoleUsers roleID =>
    rw [arrive_decimal rfl (by simp [ListCall.call, Call.sent, get, safe_decimal]) h]
    simp [ListCall.bare, ListCall.call, Call.sent, get]
  | getResourceRoles resID =>
    have hone : Safe "1" := by decide
    rw [arrive_decimal rfl (by simp [ListCall.call, Call.sent, get, safe_decimal, hone]) h]
    simp [ListCall.bare, ListCall.call, Call.sent, get]
  | getResource resID =>
    rw [arrive_decimal rfl (by simp [ListCall.call, Call.sent, get, safe_decimal]) h]
    simp [ListCall.bare, ListCall.call, Call.sent, get]

end Arrive

/-! ## What the handler answers -/

theorem toOption_map_some {α β : Type} {x : Except Fault α} {f : α → β} {b : β}
    (h : x.toOption.map f = some b) : ∃ a, x = .ok a ∧ f a = b := by
  cases x with
  | error e => cases h
  | ok a => exact ⟨a, rfl, Option.some.inj h⟩

/-- A status object is no array. -/
theorem readSlice_response (k : Kind) (status : Int) (m : String) (data : Option Json) :
    Json.readSlice (readRow k) (response status m data) = none := rfl

/-- The five methods that take an array. -/
theorem read_relation_iff {k : Kind} {n : Int} {rows : List Row}
    (hkind : ∀ r ∈ rows, kindOf r = k) {read : Json → Res String (List Row)}
    (hread : ∀ j, read j = match Json.readSlice (readRow k) j with
      | none => .err unmarshalError
      | some rows => .ok rows)
    (isNil : Bool) (errText : Fault → String) (alone : Bool) :
    (body isNil errText (relationResp alone (orNone (n, rows)))).bind read = .ok rows ↔
      n ≠ 0 ∧ rows ≠ [] ∧ alone = true := by
  by_cases hnone : n = 0 ∨ rows = []
  · refine iff_of_false ?_ fun h => hnone.elim h.1 h.2.1
    simp only [orNone, if_pos hnone, relationResp, if_true, notFound, body, Res.bind, hread,
      readSlice_response]
    exact fun h => by cases h
  · obtain ⟨hn, hrows⟩ := not_or.mp hnone
    simp only [orNone, if_neg hnone, relationResp, if_neg hrows]
    cases alone with
    | true =>
      refine iff_of_true ?_ ⟨hn, hrows, rfl⟩
      simp only [if_true, body, Res.bind, hread, readSlice_rows hkind]
    | false =>
      refine iff_of_false ?_ fun h => by cases h.2.2
      simp only [Bool.false_eq_true, if_false, body, Res.bind, hread, Json.readSlice]
      exact fun h => by cases h

section Answer

variable [Collating] {C : Crypto} {q : Rbac.Request} {n : Int} {rows : List Row} {db : Db}
  {c : ListCall}

theorem answer_orNone {my : Mysql} {s : Select} (h : found my s db = some (n, rows)) (code : Int)
    (good : Int × List Row → Resp) :
    answer ((query my s db).map orNone) code good = good (orNone (n, rows)) := by
  rw [query_of_found h]
  rfl

theorem handler_of_produced {my : Mysql} (hbare : c.email? = none → c.bare q = true)
    (h : Produced C my q db c n rows) :
    (c.endpoint.handler C my q db).1 = c.resp q n rows := by
  obtain ⟨hform, appID, htoken, hrows⟩ := h
  cases c with
  | getUserResources email =>
    obtain ⟨rows', hr, he⟩ := toOption_map_some hrows
    cases he
    simp only [ListCall.endpoint, ReadEndpoint.handler, userResourceGET, withToken, htoken, reading,
      ListCall.resp]
    unfold userResources at hr
    split at hr
    · cases hr
    · next ids hids =>
      simp only [hids, answer]
      split at hr
      · next hnil =>
        cases hr
        rw [if_pos hnil]
      · next hnil => rw [if_neg hnil, hr]
  | getResource resID =>
    obtain ⟨rows', hr, he⟩ := toOption_map_some hrows
    cases he
    have hq : q.int "query" = 0 := by simpa [ListCall.bare] using hbare rfl
    simp only [ListCall.Parsed] at hform
    simp only [ListCall.endpoint, ReadEndpoint.handler, resourceGET, withForm, hform, withToken,
      htoken, reading, hq, hr, answer, if_true, ListCall.resp]
  | getUserRoles email =>
    simp only [ListCall.Parsed] at hform
    simp only [ListCall.endpoint, ReadEndpoint.handler, userRoleGET, withForm, hform, withToken,
      htoken, reading, relationRoleUserQuery]
    exact answer_orNone hrows _ _
  | getRoleUsers roleID =>
    simp only [ListCall.Parsed] at hform
    simp only [ListCall.endpoint, ReadEndpoint.handler, roleUserGET, withForm, hform, withToken,
      htoken, reading, relationRoleUserQuery]
    exact answer_orNone hrows _ _
  | getResourceRoles resID =>
    simp only [ListCall.Parsed] at hform
    simp only [ListCall.endpoint, ReadEndpoint.handler, roleResourceGET, withForm, hform, withToken,
      htoken, reading, roleResourceQuery]
    exact answer_orNone hrows _ _
  | getResourceRolesUnrelated resID email =>
    simp only [ListCall.Parsed] at hform
    simp only [ListCall.endpoint, ReadEndpoint.handler, unrelatedGET, withForm, hform, withToken,
      htoken, reading, unrelatedResourceRoles]
    exact answer_orNone hrows _ _

theorem select_of_resourceGet {my : Mysql} {appID : Int} {ids : List Int}
    (h : resourceGet my appID ids db = .ok rows) :
    select my ⟨.resourcesIn appID ids, "", "", 0, 0⟩ db = .ok rows := by
  obtain ⟨x, hx, rfl⟩ := except_map_ok h
  obtain ⟨rows', hrows, rfl⟩ := except_map_ok hx
  exact hrows

/-- An id picks at most one resource. -/
theorem length_resourceGet {my : Mysql} {appID id : Int}
    (h : resourceGet my appID [id] db = .ok rows) : rows.length ≤ 1 := by
  have hs := select_of_resourceGet h
  unfold select at hs
  split at hs
  · cases hs
  · have hparse : Select.parse ⟨.resourcesIn appID [id], "", "", 0, 0⟩ =
        .ok (.resourcesIn appID [id]) := rfl
    rw [hparse] at hs
    cases hs
    refine le_of_eq_of_le (my.arrange_perm _ _).length_eq ?_
    rw [List.length_map]
    refine db.resource.length_filter_le_one _ fun r hr r' hr' hp hp' => ?_
    simp only [List.contains_cons, List.contains_nil, Bool.or_false, Bool.and_eq_true,
      beq_iff_eq] at hp hp'
    exact db.resource.eq_of_id hr hr' (hp.2.trans hp'.2.symm)

theorem kind_produced {my : Scanned} (h : Produced C my.toMysql q db c n rows) :
    ∀ r ∈ rows, kindOf r = c.kind := by
  obtain ⟨-, appID, -, hrows⟩ := h
  cases c with
  | getUserResources email =>
    obtain ⟨rows', hr, he⟩ := toOption_map_some hrows
    cases he
    unfold userResources at hr
    split at hr
    · cases hr
    · split at hr
      · cases hr
        exact fun r hr => by cases hr
      · exact kind_select (select_of_resourceGet hr)
  | getResource resID =>
    obtain ⟨rows', hr, he⟩ := toOption_map_some hrows
    cases he
    exact kind_select (select_of_resourceGet hr)
  | _ => exact kind_select (found_eq_some.mp hrows).1

/-- What the method returns is right exactly when the answer fits it. -/
theorem right_iff {my : Scanned} (h : Produced C my.toMysql q db c n rows) (isNil : Bool)
    (errText : Fault → String) :
    c.Right rows ((body isNil errText (c.resp q n rows)).bind c.read) ↔ c.Fits q n rows := by
  have hkind := kind_produced h
  cases c with
  | getUserResources email =>
    refine iff_of_true ?_ trivial
    simp only [ListCall.Right, ListCall.resp, body, Res.bind, ListCall.read, readSlice_rows hkind]
  | getResource resID =>
    obtain ⟨-, appID, -, hrows⟩ := h
    obtain ⟨rows', hr, he⟩ := toOption_map_some hrows
    cases he
    have hlen := length_resourceGet hr
    simp only [ListCall.Right, ListCall.resp, body, Res.bind, ListCall.read, ListCall.Fits,
      readEnvelope_response hkind]
    rcases rows with _ | ⟨r, _ | ⟨r', rows⟩⟩
    · simp
    · simp
    · simp at hlen
  | getUserRoles email => exact read_relation_iff hkind (fun _ => rfl) _ _ _
  | getRoleUsers roleID => exact read_relation_iff hkind (fun _ => rfl) _ _ _
  | getResourceRoles resID => exact read_relation_iff hkind (fun _ => rfl) _ _ _
  | getResourceRolesUnrelated resID email => exact read_relation_iff hkind (fun _ => rfl) _ _ _

theorem outcome_of_produced {my : Scanned} {taken : List Char → Bool} {token : String}
    (harrive : c.call.sent.arrive taken token = some q) (h : Produced C my.toMysql q db c n rows)
    (isNil : Bool) (errText : Fault → String) :
    c.outcome C my isNil errText taken token db =
      (body isNil errText (c.resp q n rows)).bind c.read := by
  simp only [ListCall.outcome, harrive, handler_of_produced (bare_of_arrive · harrive) h]

end Answer

/-! ## The result -/

/-- A method returns what the queries of the server produced exactly when the answer fits it. -/
theorem delivers_iff [Collating] (C : Crypto) (my : Scanned) (isNil : Bool)
    (errText : Fault → String) (taken : List Char → Bool) (token : String) (db : Db) (c : ListCall) :
    Delivers C my isNil errText taken token db c ↔
      ∀ q n rows, c.call.sent.arrive taken token = some q →
        Produced C my.toMysql q db c n rows → c.Fits q n rows := by
  refine forall₅_congr fun q n rows harrive h => ?_
  rw [outcome_of_produced harrive h]
  exact right_iff h isNil errText

theorem not_delivers_of_none [Collating] {C : Crypto} {my : Scanned} {taken : List Char → Bool}
    {token : String} {db : Db} {c : ListCall} (hsafe : ∀ kv ∈ c.call.sent.query, Safe kv.2)
    (hbody : c.call.sent.body = [])
    (h : Produced C my.toMysql ⟨⟨none, c.call.sent.query⟩, c.call.sent.query, token⟩ db c 0 [])
    (hno : ¬ c.Fits ⟨⟨none, c.call.sent.query⟩, c.call.sent.query, token⟩ 0 [])
    (isNil : Bool) (errText : Fault → String) :
    ¬ Delivers C my isNil errText taken token db c := by
  intro hd
  have harrive : c.call.sent.arrive taken token =
      some ⟨⟨none, c.call.sent.query⟩, c.call.sent.query, token⟩ := by
    rw [arrive_of_safe plainKey_of_mem hsafe, request_of_safe hbody plainKey_of_mem hsafe]
  have hright := hd _ _ _ harrive h
  rw [outcome_of_produced harrive h] at hright
  exact hno ((right_iff h isNil errText).mp hright)

/-- A user without roles and a resource that is not there, in an empty database: neither method
    returns what the server found. -/
theorem no_rows_not_delivered :
    ¬ ∃ (_ : Collating) (C : Crypto) (isNil : Bool) (errText : Fault → String)
      (taken : List Char → Bool),
      Delivers C (Scanned.steady default) isNil errText taken (tokenOf C [0x02]) default
        (.getUserRoles ⟨"a", by decide⟩) ∨
      Delivers C (Scanned.steady default) isNil errText taken (tokenOf C [0x02]) default
        (.getResource 1) := by
  rintro ⟨_, C, isNil, errText, taken, h⟩
  have htoken : parseToken C (tokenOf C [0x02]) = .ok 1 :=
    (parseToken_ok_iff _ _ _).mpr (tokenID_tokenOf C _ (by decide) (by decide))
  rcases h with h | h
  · have hmail : Safe "a" := by decide
    have hq : found (Scanned.steady default).toMysql
        ⟨.roleUsers 1 0 (some "a"), "", "", 0, 0⟩ default = some (0, []) := rfl
    refine not_delivers_of_none (c := .getUserRoles ⟨"a", by decide⟩) ?_ rfl ⟨rfl, 1, htoken, ?_⟩
      (fun hf => hf.1 rfl) isNil errText h
    · simp [ListCall.call, Call.sent, get, hmail]
    · simpa [ListCall.queries, ListCall.call, Call.sent, get, Rbac.Request.page, Page.of,
        emailClause] using hq
  · refine not_delivers_of_none (c := .getResource 1) ?_ rfl ⟨rfl, 1, htoken, ?_⟩
      (fun hf => hf rfl) isNil errText h
    · simp [ListCall.call, Call.sent, get, safe_decimal]
    · simp only [ListCall.queries]
      rfl

end Doodle.Rbac.Client
