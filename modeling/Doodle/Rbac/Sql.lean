/-
  The statements the rbac server sends, and what MySQL does with them.

  The server writes its statements as text and splices names, comments, emails, sort columns and
  one id into them as they come. A statement is modelled with the texts it splices: `literal`
  reads a quoted text by MySQL's rules for string literals, and as long as every text reads, the
  statement means what the source meant. A text that ends its own literal (or a sort column that
  is more than a name) makes another statement of it; what MySQL then does is left open, as
  `stray` answers of the parameter `Mysql`. So are the time, the order in which rows come, and
  errors that come before a row is read (a lost connection, an unknown column), the same for the
  same statement.
-/
import Mathlib.Data.List.Dedup
import Doodle.Lib.Action
import Doodle.Go.Strconv
import Doodle.Rbac.Schema

namespace Doodle.Rbac

open Doodle.Lib Doodle.Go

/-! ## Texts in statements -/

def quote : Char := Char.ofNat 39

def backslash : Char := Char.ofNat 92

/-- The characters a backslash and `c` stand for. -/
def unescape (c : Char) : List Char :=
  match c with
  | '0' => [Char.ofNat 0]
  | 'b' => [Char.ofNat 8]
  | 'n' => [Char.ofNat 10]
  | 'r' => [Char.ofNat 13]
  | 't' => [Char.ofNat 9]
  | 'Z' => [Char.ofNat 26]
  | '%' => [backslash, c]
  | '_' => [backslash, c]
  | _ => [c]

/-- What stands between two quotes, or `none` when the literal does not end at the second. -/
def readChars : List Char → Option (List Char)
  | [] => some []
  | c :: cs =>
    if c = backslash then
      match cs with
      | [] => none
      | d :: ds => (readChars ds).map (unescape d ++ ·)
    else if c = quote then
      match cs with
      | [] => none
      | d :: ds => if d = quote then (readChars ds).map (quote :: ·) else none
    else (readChars cs).map (c :: ·)

/-- The value of a text spliced between two quotes. -/
def readLiteral (s : String) : Option String := (readChars s.toList).map String.ofList

/-- A text that is read as the given characters. -/
def escape (cs : List Char) : List Char :=
  cs.flatMap fun c => if c = quote ∨ c = backslash then [backslash, c] else [c]

theorem readChars_escape (cs : List Char) : readChars (escape cs) = some cs := by
  induction cs with
  | nil => rfl
  | cons c cs ih =>
    unfold escape at ih ⊢
    rw [List.flatMap_cons]
    by_cases hc : c = quote ∨ c = backslash
    · have hun : unescape c = [c] := by rcases hc with rfl | rfl <;> decide
      rw [if_pos hc]
      simp only [List.cons_append, List.nil_append, readChars, if_true, ih, Option.map_some, hun]
    · rw [if_neg hc]
      obtain ⟨hq, hb⟩ := not_or.mp hc
      rw [List.singleton_append]
      unfold readChars
      rw [if_neg hb, if_neg hq, ih]
      rfl

/-- Every text is the value of some literal. -/
theorem exists_readLiteral (v : String) : ∃ s, readLiteral s = some v :=
  ⟨String.ofList (escape v.toList), by simp [readLiteral, readChars_escape]⟩

/-- Why a statement fails. -/
inductive Fault where
  /-- an error before any row is read -/
  | down (e : String)
  /-- error 1064: the text does not parse -/
  | malformed
  /-- error 1242: a subquery in place of a value returns more than one row -/
  | subquery
  /-- error 1062: a second row under a unique key -/
  | duplicate
  /-- the text is not the statement the source meant -/
  | injected
  deriving DecidableEq, Repr

/-- `'%s'` -/
def literal (s : String) : Except Fault String :=
  match readLiteral s with
  | some v => .ok v
  | none => .error .injected

/-- A string field in `add`. An empty one is written as the field's `db_default`; `Name`,
    `Comments` and `Email` have none, so nothing is written between two commas. -/
def quoted (s : String) : Except Fault String :=
  if s = "" then .error .malformed else literal s

/-- The digits of an integer, with an optional sign. -/
def readNumber (s : String) : Option Int :=
  match s.toList with
  | '-' :: ds => (parseDigits ds).map fun n => -(n : Int)
  | '+' :: ds => (parseDigits ds).map Int.ofNat
  | ds => (parseDigits ds).map Int.ofNat

/-- A value written without quotes. -/
def number (s : String) : Except Fault Int :=
  if s = "" then .error .malformed
  else
    match readNumber s with
    | some n => .ok n
    | none => .error .injected

/-- A column name, or a word such as `desc`. -/
def isName (s : String) : Bool := s.toList.all fun c => c.isAlphanum || c = '_' || c = '.'

/-- `order by sort order` is what it looks like; without a sort column it is not written. -/
def plainSort (sort order : String) : Bool := sort = "" || isName sort && isName order

/-! ## Writes -/

/-- How `role` DELETE names the role. -/
inductive RoleRef where
  | id (n : Int)
  | name (s : String)
  deriving DecidableEq, Repr

/-- The statements that change rows. -/
inductive Write where
  /-- `add("user", u)` -/
  | addUser (appID : Int) (name email : String)
  /-- `add("role", role)` -/
  | addRole (appID : Int) (name : String) (userID : Int) (comments : String)
  /-- `add("resource", res)` -/
  | addResource (appID : Int) (name comments : String)
  /-- `add("role_user", relation)` -/
  | addRoleUser (appID roleID userID : Int)
  /-- `add("role_resource", relation)` -/
  | addRoleResource (appID roleID resourceID : Int)
  /-- `updateRole` -/
  | updateRole (id appID : Int) (name comments : String)
  /-- `updateUser` -/
  | updateUser (id appID : Int) (name email : String)
  /-- `delete from role_user where app_id=%d and role_id=`, the id or a select by name; `none` is
      a where clause without text -/
  | deleteMembers (appID : Int) (role : Option RoleRef)
  /-- `delete from role where id=%d`, or `where app_id=%d and name='%s'` -/
  | deleteRole (appID : Int) (role : RoleRef)
  /-- the delete of `RoleUserDelete` -/
  | deleteMember (appID roleID : Int) (email : String)
  /-- the delete of `RoleResourceDelete` -/
  | deleteGrant (appID roleID resourceID : Int)
  /-- `delete from resource where id=%d` -/
  | deleteResource (id : Int)
  /-- `delete from role_resource where resource_id=%d` -/
  | deleteGrants (resourceID : Int)
  deriving DecidableEq, Repr

section Database

variable [Collating]

/-- `role_id=(select id from role where app_id=%d and name='%s')`; no such role is NULL, which no
    row equals. -/
def Db.isRoleNamed (db : Db) (appID : Int) (name : String) (roleID : Int) : Bool :=
  db.role.rows.any fun r => r.appID = appID && weight r.name = weight name && r.id = roleID

/-- `user_id = (select id from user where app_id=%d and email='%v')` -/
def Db.isUserOf (db : Db) (appID : Int) (email : String) (userID : Int) : Bool :=
  db.user.rows.any fun u => u.appID = appID && weight u.email = weight email && u.id = userID

/-- An update that would give two rows one key. -/
def unique {α : Type} : Option α → Except Fault α
  | some a => .ok a
  | none => .error .duplicate

/-- The last insert id and the database after the statement. The number of rows that an update
    or a delete affects is only logged, and is 0 here. -/
def Write.denote (now : String) (db : Db) : Write → Except Fault (Int × Db)
  | .addUser appID name email => do
    let name ← quoted name
    let email ← quoted email
    pure (db.user.idOf (appID, weight email),
      { db with user := db.user.upsert (userEntry now appID name email) })
  | .addRole appID name userID comments => do
    let name ← quoted name
    let comments ← quoted comments
    pure (db.role.idOf (appID, weight name),
      { db with role := db.role.upsert (roleEntry now appID name userID comments) })
  | .addResource appID name comments => do
    let name ← quoted name
    let comments ← quoted comments
    pure (db.resource.idOf (appID, weight name),
      { db with resource := db.resource.upsert (resourceEntry now appID name comments) })
  | .addRoleUser appID roleID userID =>
    pure (db.roleUser.idOf (appID, roleID, userID),
      { db with roleUser := db.roleUser.upsert (roleUserEntry now appID roleID userID) })
  | .addRoleResource appID roleID resourceID =>
    pure (db.roleResource.idOf (appID, roleID, resourceID),
      { db with
        roleResource := db.roleResource.upsert (roleResourceEntry now appID roleID resourceID) })
  | .updateRole id appID name comments => do
    let name ← literal name
    let comments ← literal comments
    let set := fun r : Role =>
      { r with
        name := name
        comments := comments
        ctime := onUpdate now r.ctime (r.name ≠ name || r.comments ≠ comments || r.mtime ≠ now)
        mtime := now }
    let role ← unique (db.role.update (fun r => r.id = id && r.appID = appID) set fun _ => rfl)
    pure (0, { db with role := role })
  | .updateUser id appID name email => do
    let name ← literal name
    let email ← literal email
    let set := fun u : User =>
      { u with
        name := name
        email := email
        ctime := onUpdate now u.ctime (u.name ≠ name || u.email ≠ email || u.mtime ≠ now)
        mtime := now }
    let user ← unique (db.user.update (fun u => u.id = id && u.appID = appID) set fun _ => rfl)
    pure (0, { db with user := user })
  | .deleteMembers _ none => throw .malformed
  | .deleteMembers appID (some (.id n)) =>
    pure (0, { db with
      roleUser := db.roleUser.delete fun r => r.appID = appID && r.roleID = n })
  | .deleteMembers appID (some (.name s)) => do
    let s ← literal s
    pure (0, { db with
      roleUser := db.roleUser.delete fun r => r.appID = appID && db.isRoleNamed appID s r.roleID })
  | .deleteRole _ (.id n) => pure (0, { db with role := db.role.delete fun r => r.id = n })
  | .deleteRole appID (.name s) => do
    let s ← literal s
    pure (0, { db with
      role := db.role.delete fun r => r.appID = appID && weight r.name = weight s })
  | .deleteMember appID roleID email => do
    let email ← literal email
    pure (0, { db with
      roleUser := db.roleUser.delete fun r =>
        r.appID = appID && r.roleID = roleID && db.isUserOf appID email r.userID })
  | .deleteGrant appID roleID resourceID =>
    pure (0, { db with
      roleResource := db.roleResource.delete fun r =>
        r.appID = appID && r.roleID = roleID && r.resourceID = resourceID })
  | .deleteResource id => pure (0, { db with resource := db.resource.delete fun r => r.id = id })
  | .deleteGrants resourceID =>
    pure (0, { db with
      roleResource := db.roleResource.delete fun r => r.resourceID = resourceID })

/-! ## Reads -/

/-- `meta.RoleUser`: a row of `role_user` with columns of its role and its user. -/
structure RoleUser where
  id : Int
  appID : Int
  adminID : Int
  userID : Int
  userName : String
  userEmail : String
  roleID : Int
  roleName : String
  roleComments : String
  ctime : String
  mtime : String
  deriving DecidableEq, Repr

/-- `meta.RoleResource`: a row of `role_resource` with columns of its role and its resource. -/
structure RoleResource where
  id : Int
  appID : Int
  resourceID : Int
  resourceName : String
  roleID : Int
  roleName : String
  roleComments : String
  ctime : String
  mtime : String
  deriving DecidableEq, Repr

/-- A row of a result. -/
inductive Row where
  | user (u : User)
  | role (r : Role)
  | resource (r : Resource)
  | roleUser (r : RoleUser)
  | roleResource (r : RoleResource)
  | id (n : Int)
  deriving DecidableEq, Repr

/-- What the server selects: the table and the where clause, with the one id that is spliced as
    text of type `ν`. An email that is left out of the clause is `none`. -/
inductive Query (ν : Type) where
  /-- `user`, of one id unless it is 0 -/
  | users (id : Int)
  | roles (appID : Int)
  | roleByID (appID : Int) (id : ν)
  /-- the where clause of `ResourceQuery`: an id is asked for when it is positive -/
  | resources (appID resID : Int)
  /-- the where clause of `ResourceGet` -/
  | resourcesIn (appID : Int) (ids : List Int)
  /-- `role_user, role, user` of `RelationRoleUserQuery` -/
  | roleUsers (appID roleID : Int) (email : Option String)
  /-- `role_resource, role, resource` of `RoleResourceQuery` -/
  | roleResources (appID resID roleID : Int)
  /-- the where clause of `UnrelatedResourceRoles` -/
  | unrelated (resourceID : Int) (email : Option String)
  /-- the resource ids of `UserResourceGet` -/
  | resourceIDs (appID : Int) (email : String)
  deriving DecidableEq, Repr

/-- An email clause that may be left out. -/
def literal? : Option String → Except Fault (Option String)
  | none => .ok none
  | some s => (literal s).map some

/-- Read the texts of a where clause. -/
def Query.parse : Query String → Except Fault (Query Int)
  | .users id => .ok (.users id)
  | .roles appID => .ok (.roles appID)
  | .roleByID appID id => (number id).map (.roleByID appID)
  | .resources appID resID => .ok (.resources appID resID)
  -- the bracket is cut off with the last comma
  | .resourcesIn _ [] => .error .malformed
  | .resourcesIn appID (id :: ids) => .ok (.resourcesIn appID (id :: ids))
  | .roleUsers appID roleID email => (literal? email).map (.roleUsers appID roleID)
  | .roleResources appID resID roleID => .ok (.roleResources appID resID roleID)
  | .unrelated resourceID email => (literal? email).map (.unrelated resourceID)
  | .resourceIDs appID email => (literal email).map (.resourceIDs appID)

/-- `x > 0` adds a condition, otherwise there is none. -/
def wanted (x y : Int) : Bool := x ≤ 0 || y = x

/-- The rows of `role_user, role, user`. -/
def Db.roleUsers (db : Db) (p : RoleUserRow → User → Bool) : List RoleUser :=
  db.roleUser.rows.flatMap fun ru =>
    (db.role.rows.filter fun r => ru.roleID = r.id).flatMap fun r =>
      (db.user.rows.filter fun u => ru.userID = u.id && p ru u).map fun u =>
        ⟨ru.id, ru.appID, r.userID, ru.userID, u.name, u.email, ru.roleID, r.name, r.comments,
          ru.ctime, ru.mtime⟩

/-- The rows of `role_resource, role, resource`. -/
def Db.roleResources (db : Db) (p : RoleResourceRow → Role → Resource → Bool) :
    List RoleResource :=
  db.roleResource.rows.flatMap fun rr =>
    (db.role.rows.filter fun r => rr.roleID = r.id).flatMap fun r =>
      (db.resource.rows.filter fun s => rr.resourceID = s.id && p rr r s).map fun s =>
        ⟨rr.id, rr.appID, rr.resourceID, s.name, rr.roleID, r.name, r.comments, rr.ctime, rr.mtime⟩

/-- A subquery in place of a value: no row is NULL, and more than one is an error. -/
def scalar : List Int → Except Fault (Option Int)
  | [] => .ok none
  | [n] => .ok (some n)
  | _ => .error .subquery

/-- `id NOT in (select role_resource.role_id from role_resource where …resource_id = %d)` -/
def Db.unrelated (db : Db) (resourceID : Int) (r : Role) : Bool :=
  !db.roleResource.rows.any fun rr => rr.resourceID = resourceID && rr.roleID = r.id

/-- `role_id in (select role_id from role_user where role_user.user_id = (select id from user
    where email='%s' and app_id=%d))` -/
def Db.isRoleOf (db : Db) (appID : Int) (email : String) (roleID : Int) : Bool :=
  db.roleUser.rows.any fun ru => ru.roleID = roleID && db.isUserOf appID email ru.userID

/-- The rows of a where clause whose texts have been read. -/
def Query.rows (db : Db) : Query Int → Except Fault (List Row)
  | .users id => .ok ((db.user.rows.filter fun u => id = 0 || u.id = id).map .user)
  | .roles appID => .ok ((db.role.rows.filter fun r => r.appID = appID).map .role)
  | .roleByID appID id =>
    .ok ((db.role.rows.filter fun r => r.appID = appID && r.id = id).map .role)
  | .resources appID resID =>
    .ok ((db.resource.rows.filter fun s => wanted appID s.appID && wanted resID s.id).map .resource)
  | .resourcesIn appID ids =>
    .ok ((db.resource.rows.filter fun s => s.appID = appID && ids.contains s.id).map .resource)
  | .roleUsers appID roleID email =>
    .ok ((db.roleUsers fun ru u => wanted appID ru.appID && wanted roleID ru.roleID &&
      email.all (weight u.email = weight ·)).map .roleUser)
  | .roleResources appID resID roleID =>
    .ok ((db.roleResources fun rr r s => wanted appID rr.appID && wanted resID s.id &&
      wanted roleID r.id).map .roleResource)
  | .unrelated resourceID none =>
    .ok ((db.role.rows.filter (db.unrelated resourceID)).map .role)
  | .unrelated resourceID (some email) =>
    (scalar ((db.user.rows.filter fun u => weight u.email = weight email).map (·.id))).map
      fun owner =>
      (db.role.rows.filter fun r => db.unrelated resourceID r && owner = some r.userID).map .role
  | .resourceIDs appID email =>
    .ok (((db.roleResource.rows.filter fun rr =>
      rr.appID = appID && db.isRoleOf appID email rr.roleID).map (·.resourceID)).dedup.map .id)

/-- A select: what, in which order, and which page of it. -/
structure Select where
  query : Query String
  sort : String
  order : String
  offset : Int
  limit : Int
  deriving DecidableEq, Repr

/-- `limit %d,%d` with a negative offset does not parse. -/
def Select.parse (s : Select) : Except Fault (Query Int) :=
  match s.query.parse with
  | .error f => .error f
  | .ok w =>
    if plainSort s.sort s.order = false then .error .injected
    else if s.limit > 0 ∧ s.offset < 0 then .error .malformed
    else .ok w

/-- The limit is written only when it is positive. -/
def Select.page (s : Select) (rows : List Row) : List Row :=
  if s.limit > 0 then (rows.drop s.offset.toNat).take s.limit.toNat else rows

/-! ## MySQL -/

inductive Stmt where
  | write (w : Write)
  | select (s : Select)
  | count (q : Query String)
  deriving DecidableEq, Repr

/-- What is left open of MySQL. -/
structure Mysql where
  now : String
  down : Stmt → Option String
  arrange : Select → List Row → List Row
  arrange_perm : ∀ s rows, (arrange s rows).Perm rows
  strayWrite : Write → Db → Except Fault Int × Db
  straySelect : Select → Db → Except Fault (List Row)
  strayCount : Query String → Db → Except Fault Int

/-- A MySQL that answers every statement, with rows in the order of the tables. A write that goes
    astray leaves the database `bad` and fails, and a select that goes astray finds nothing. -/
def Mysql.steady (bad : Db) : Mysql where
  now := ""
  down _ := none
  arrange _ rows := rows
  arrange_perm _ _ := List.Perm.refl _
  strayWrite _ _ := (.error .injected, bad)
  straySelect _ _ := .ok []
  strayCount _ _ := .ok 0

/-- `db.Exec` -/
def exec (my : Mysql) (w : Write) : Action Fault Db Int := fun db =>
  match my.down (.write w) with
  | some e => (.error (.down e), db)
  | none =>
    match w.denote my.now db with
    | .ok (n, db') => (.ok n, db')
    | .error .injected => my.strayWrite w db
    | .error f => (.error f, db)

/-- `db.Query` and the scan of its rows. -/
def select (my : Mysql) (s : Select) (db : Db) : Except Fault (List Row) :=
  match my.down (.select s) with
  | some e => .error (.down e)
  | none =>
    match s.parse with
    | .ok w => (w.rows db).map fun rows => s.page (my.arrange s rows)
    | .error .injected => my.straySelect s db
    | .error f => .error f

/-- `select count(*)` -/
def count (my : Mysql) (q : Query String) (db : Db) : Except Fault Int :=
  match my.down (.count q) with
  | some e => .error (.down e)
  | none =>
    match q.parse with
    | .ok w => (w.rows db).map fun rows => (rows.length : Int)
    | .error .injected => my.strayCount q db
    | .error f => .error f

/-- `queryAll` -/
def queryAll (my : Mysql) (q : Query String) (db : Db) : Except Fault (List Row) :=
  select my ⟨q, "", "", 0, 0⟩ db

/-- The total of `query`. An error of the count is dropped, and the total is then the limit that
    was passed. -/
def total (my : Mysql) (s : Select) (db : Db) : Int :=
  match count my s.query db with
  | .ok n => n
  | .error _ => s.limit

/-- `query`: the rows and their total. -/
def query (my : Mysql) (s : Select) (db : Db) : Except Fault (Int × List Row) :=
  (select my s db).map fun rows => (total my s db, rows)

theorem select_down {my : Mysql} {s : Select} {e : String} (hd : my.down (.select s) = some e)
    (db : Db) : select my s db = .error (.down e) := by
  simp only [select, hd]

theorem select_of_parse {my : Mysql} {s : Select} {w : Query Int}
    (hd : my.down (.select s) = none) (hp : s.parse = .ok w) (db : Db) :
    select my s db = (w.rows db).map fun rows => s.page (my.arrange s rows) := by
  simp only [select, hd, hp]

end Database

/-! ## What a write can do -/

/-- The text is one literal. -/
def readable (s : String) : Bool := (readLiteral s).isSome

/-- The string fields of an `add`, in the order they are written: literals up to the last one, or
    up to an empty one, which ends the reading. -/
def clean : List String → Bool
  | [] => true
  | s :: ss => s = "" || readable s && clean ss

/-- The statement is read as the source meant it, or rejected. -/
def Write.clean : Write → Bool
  | .addUser _ name email => Rbac.clean [name, email]
  | .addRole _ name _ comments => Rbac.clean [name, comments]
  | .addResource _ name comments => Rbac.clean [name, comments]
  | .updateRole _ _ name comments => readable name && readable comments
  | .updateUser _ _ name email => readable name && readable email
  | .deleteMembers _ (some (.name s)) => readable s
  | .deleteRole _ (.name s) => readable s
  | .deleteMember _ _ email => readable email
  | _ => true

theorem quoted_ok_iff {s v : String} : quoted s = .ok v ↔ s ≠ "" ∧ readLiteral s = some v := by
  unfold quoted literal
  by_cases hs : s = ""
  · rw [if_pos hs]
    exact iff_of_false (fun h => by cases h) fun h => h.1 hs
  · rw [if_neg hs]
    cases readLiteral s with
    | none => exact iff_of_false (fun h => by cases h) fun h => by cases h.2
    | some w => simp [hs]

/-- The texts before a non-empty literal do not matter to what follows it. -/
theorem clean_cons_of_quoted {s v : String} (hs : quoted s = .ok v) (ss : List String) :
    clean (s :: ss) = clean ss := by
  obtain ⟨hne, hr⟩ := quoted_ok_iff.mp hs
  simp [clean, readable, hne, hr]

theorem clean_of_quoted {s t a b : String} (hs : quoted s = .ok a) (ht : quoted t = .ok b) :
    clean [s, t] = true := by
  rw [clean_cons_of_quoted hs, clean_cons_of_quoted ht]
  rfl

theorem clean_append {l m : List String} (h : clean (l ++ m) = true) : clean l = true := by
  induction l with
  | nil => rfl
  | cons s ss ih =>
    simp only [List.cons_append, clean, Bool.or_eq_true, decide_eq_true_eq,
      Bool.and_eq_true] at h ⊢
    exact h.imp_right fun h => ⟨h.1, ih h.2⟩

/-- Reading ends at a text that is empty or no literal. -/
theorem clean_cons_of_error {s : String} {f : Fault} (hs : quoted s = .error f)
    (ss ss' : List String) : clean (s :: ss) = clean (s :: ss') := by
  by_cases hne : s = ""
  · simp [clean, hne]
  · have hr : readLiteral s = none := by
      cases hr : readLiteral s with
      | none => rfl
      | some v =>
        rw [quoted_ok_iff.mpr ⟨hne, hr⟩] at hs
        cases hs
    simp [clean, readable, hr]

theorem literal_bind_injected {β : Type} (s : String) (f : String → Except Fault β) :
    (literal s >>= f) = .error .injected ↔
      ∀ v, readLiteral s = some v → f v = .error .injected := by
  unfold literal
  cases readLiteral s with
  | none => exact iff_of_true rfl fun v hv => by cases hv
  | some v => exact ⟨fun h w hw => by cases hw; exact h, fun h => h v rfl⟩

theorem quoted_bind_injected {β : Type} (s : String) (f : String → Except Fault β) :
    (quoted s >>= f) = .error .injected ↔
      s ≠ "" ∧ ∀ v, readLiteral s = some v → f v = .error .injected := by
  unfold quoted
  by_cases hs : s = ""
  · rw [if_pos hs]
    exact iff_of_false (fun h => by cases h) fun h => h.1 hs
  · rw [if_neg hs, literal_bind_injected]
    exact ⟨fun h => ⟨hs, h⟩, fun h => h.2⟩

theorem not_readable {s : String} : readable s = false ↔ readLiteral s = none := by
  simp [readable]

theorem pure_ne_error {β : Type} (x : β) (f : Fault) : (pure x : Except Fault β) ≠ .error f :=
  fun h => by cases h

theorem unique_bind_ne {α β : Type} (o : Option α) (f : α → β) :
    (unique o >>= fun x => pure (f x)) ≠ .error .injected := by
  cases o <;> exact fun h => by cases h

theorem readable_iff {s : String} :
    readable s = false ↔ ∀ v, readLiteral s = some v → False := by
  rw [not_readable, Option.eq_none_iff_forall_ne_some]

theorem quoted_pair_injected {β : Type} (s t : String) (f : String → String → β) :
    (do let a ← quoted s; let b ← quoted t; pure (f a b) : Except Fault β) = .error .injected ↔
      clean [s, t] = false := by
  simp only [quoted_bind_injected, pure_ne_error, ← readable_iff]
  rcases hr : readLiteral s with _ | v <;> by_cases hs : s = "" <;> simp [clean, readable, hr, hs]

theorem quoted_pair_ok {β : Type} {s t : String} {f : String → String → β} {r : β}
    (h : (do let a ← quoted s; let b ← quoted t; pure (f a b) : Except Fault β) = .ok r) :
    ∃ a b, quoted s = .ok a ∧ quoted t = .ok b ∧ r = f a b := by
  obtain ⟨a, ha, h⟩ := except_bind_ok h
  obtain ⟨b, hb, h⟩ := except_bind_ok h
  cases h
  exact ⟨a, b, ha, hb, rfl⟩

theorem literal_pair_injected {β : Type} (s t : String) (f : String → String → Except Fault β)
    (hf : ∀ a b, f a b ≠ .error .injected) :
    (do let a ← literal s; let b ← literal t; f a b : Except Fault β) = .error .injected ↔
      (readable s && readable t) = false := by
  simp only [literal_bind_injected, hf, ← readable_iff]
  rcases hr : readLiteral s with _ | v <;> simp [readable, hr]

theorem literal_injected {β : Type} (s : String) (f : String → β) :
    (do let a ← literal s; pure (f a) : Except Fault β) = .error .injected ↔
      readable s = false := by
  simp only [literal_bind_injected, pure_ne_error, ← readable_iff]

variable [Collating]

/-- A statement goes astray exactly when its texts are not clean. -/
theorem denote_injected (now : String) (db : Db) (w : Write) :
    w.denote now db = .error .injected ↔ w.clean = false := by
  cases w with
  | addUser appID name email => exact quoted_pair_injected _ _ _
  | addRole appID name userID comments => exact quoted_pair_injected _ _ _
  | addResource appID name comments => exact quoted_pair_injected _ _ _
  | updateRole id appID name comments =>
    exact literal_pair_injected _ _ _ fun _ _ => unique_bind_ne _ _
  | updateUser id appID name email =>
    exact literal_pair_injected _ _ _ fun _ _ => unique_bind_ne _ _
  | deleteMembers appID role =>
    rcases role with _ | ⟨n⟩ | ⟨s⟩
    · exact iff_of_false (fun h => by cases h) Bool.noConfusion
    · exact iff_of_false (pure_ne_error _ _) Bool.noConfusion
    · exact literal_injected _ _
  | deleteRole appID role =>
    rcases role with ⟨n⟩ | ⟨s⟩
    · exact iff_of_false (pure_ne_error _ _) Bool.noConfusion
    · exact literal_injected _ _
  | deleteMember appID roleID email => exact literal_injected _ _
  | _ => exact iff_of_false (pure_ne_error _ _) Bool.noConfusion

/-- A statement fails and changes nothing, does what it says, or is not clean. -/
theorem exec_cases (my : Mysql) (w : Write) (db : Db) :
    (∃ f, exec my w db = (.error f, db)) ∨
    (∃ n db', w.denote my.now db = .ok (n, db') ∧ exec my w db = (.ok n, db')) ∨
    w.clean = false := by
  unfold exec
  cases my.down (.write w) with
  | some e => exact .inl ⟨_, rfl⟩
  | none =>
    cases h : w.denote my.now db with
    | ok r => exact .inr (.inl ⟨r.1, r.2, rfl, rfl⟩)
    | error f =>
      by_cases hf : f = .injected
      · rw [hf] at h
        exact .inr (.inr ((denote_injected _ _ _).mp h))
      · left
        cases f <;> first | exact absurd rfl hf | exact ⟨_, rfl⟩

theorem exec_of_denote {my : Mysql} {w : Write} {db db' : Db} {n : Int}
    (hd : my.down (.write w) = none) (h : w.denote my.now db = .ok (n, db')) :
    exec my w db = (.ok n, db') := by
  simp only [exec, hd, h]

theorem exec_of_not_clean {my : Mysql} {w : Write} (hd : my.down (.write w) = none)
    (hc : w.clean = false) (db : Db) : exec my w db = my.strayWrite w db := by
  simp only [exec, hd, (denote_injected my.now db w).mpr hc]

/-- The rule of invariants for one clean statement. -/
theorem ensures_exec {I : Db → Prop} {Q : Int → Prop} (my : Mysql) (w : Write)
    (hclean : w.clean = true)
    (h : ∀ db, I db → ∀ n db', w.denote my.now db = .ok (n, db') → I db' ∧ Q n) :
    (exec my w).Ensures I Q := by
  intro db hI
  rcases exec_cases my w db with ⟨f, hf⟩ | ⟨n, db', hd, he⟩ | hc
  · rw [hf]
    exact ⟨hI, fun a ha => by cases ha⟩
  · rw [he]
    obtain ⟨hI', hQ⟩ := h db hI n db' hd
    exact ⟨hI', fun a ha => by cases ha; exact hQ⟩
  · rw [hclean] at hc
    cases hc

end Doodle.Rbac
