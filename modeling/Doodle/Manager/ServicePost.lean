/-
  `service` POST of `manager/service.go`: a service is created by three calls to the rbac server
  and an insert of its own.

  The calls add a resource, a role with the caller in it, and the grant; `RoleAdd` alone is four
  statements. Each of them may be refused by the database behind the rbac server, its answer may be
  lost on the way, and after all of them the manager's own database may be down or refuse the
  row, for its path or for another reason. Nothing is undone on any of these ways out.

  `plan` is what a request and the state before it say of these steps: which of them will be
  stopped, and which find the row they add already there, with the time of this call as its `mtime`,
  and so leave it as it is. `allOrNothing_iff`: a failing request leaves every table alone exactly
  when the plan is quiet, that is, when the step it fails at is not a statement that a text has
  turned into another one, and every step before it changes nothing.
-/
import Doodle.Go.Strings
import Doodle.Lib.Plan
import Doodle.Manager.Relations
import Doodle.Rbac.Access

namespace Doodle.Manager.ServicePost

open Doodle.Lib Doodle.Util Doodle.Go

/-! ## The tables -/

/-- A row of `service`. -/
structure ServiceRow where
  id : Int
  roleID : Int
  resourceID : Int
  clusterID : Int
  name : String
  user : String
  validate : Bool
  email : String
  path : String
  source : String
  version : Int
  comment : String
  ctime : String
  mtime : String
  deriving DecidableEq

section Collated

variable [Collating]

/-- `uniq_path` -/
abbrev serviceSchema : Schema ServiceRow String := ⟨(·.id), fun r => weight r.path⟩

/-- The rbac database, and the table of services. -/
structure State where
  rbac : Rbac.Db
  service : Table serviceSchema

/-! ## What a request meets -/

/-- `meta.Service` as it is decoded. `Validate` is a bool, which is not decoded. -/
structure Vars where
  id : Int := 0
  roleID : Int := 0
  resourceID : Int := 0
  clusterID : Int := 0
  name : String := ""
  user : String := ""
  email : String := ""
  path : String := ""
  source : String := ""
  version : Int := 0
  comment : String := ""
  ctime : String := ""
  mtime : String := ""

def Vars.fields : List (Util.Field Vars) :=
  [⟨"id", "", .int (·.id) fun n v => { v with id := n }⟩,
   ⟨"role_id", "", .int (·.roleID) fun n v => { v with roleID := n }⟩,
   ⟨"resource_id", "", .int (·.resourceID) fun n v => { v with resourceID := n }⟩,
   ⟨"cluster_id", "", .int (·.clusterID) fun n v => { v with clusterID := n }⟩,
   ⟨"name", "Required", .str fun s v => { v with name := s }⟩,
   ⟨"user", "", .str fun s v => { v with user := s }⟩,
   ⟨"email", "", .str fun s v => { v with email := s }⟩,
   ⟨"path", "AlphaNumeric", .str fun s v => { v with path := s }⟩,
   ⟨"source", "", .str fun s v => { v with source := s }⟩,
   ⟨"version", "", .int (·.version) fun n v => { v with version := n }⟩,
   ⟨"comment", "Required", .str fun s v => { v with comment := s }⟩,
   ⟨"ctime", "", .str fun s v => { v with ctime := s }⟩,
   ⟨"mtime", "", .str fun s v => { v with mtime := s }⟩]

/-- Only an administrator may name another user. -/
def Vars.own (u : User) (v : Vars) : Vars :=
  if u.isAdmin then v else { v with email := u.email, user := u.user }

/-- What the network does to a call: it may lose the request, or the answer. -/
inductive Net where
  | passes
  | unsent
  | unanswered
  deriving DecidableEq

/-- One call to the rbac server: the network, and the database behind the server. -/
structure Peer where
  net : Net
  my : Rbac.Mysql

/-- What is left open of a request's surroundings. -/
structure Server where
  /-- the answer of `session.User` -/
  user : Except String User
  /-- `Validation.Valid` -/
  valid : Vars → Option String
  C : Crypto
  /-- the token of the manager's rbac client -/
  token : String
  resource : Peer
  role : Peer
  grant : Peer
  /-- `mdb.GetConnection` -/
  connect : Option String
  /-- an error of the insert that is not about the path -/
  refuses : Option String
  now : String

/-- `util.SendResponse` with an error. -/
inductive Refusal where
  | badRequest (message : String)
  | internal (message : String)

def Refusal.resp : Refusal → Resp
  | badRequest m => .status 400 m
  | internal m => .status 500 m

abbrev Act (α : Type) := Action Refusal State α

section Handler

variable (S : Server)

/-- A check that does not touch the tables. -/
def check {α : Type} (x : Except Refusal α) : Act α := fun s => (x, s)

/-- `session.User`, answered with 400 on an error. -/
def session : Act User := check (S.user.mapError .badRequest)

def decode (q : Util.Request) : Act Vars :=
  check <|
    match decodeRequestValue Vars.fields S.valid q {} with
    | (some e, _) => .error (.internal e)
    | (none, v) => .ok v

/-- `responseID`. The text of an error is only logged. -/
def responseID : Rbac.Resp → Option Int
  | .id n => some n
  | _ => none

/-- A call that returns an id. The server decodes the client's own arguments
    (`Rbac.Client.agrees_postResource`, `agrees_postRole`), and its handlers check the token and
    write. -/
def call (p : Peer) (message : String) (x : Int → Action Rbac.Fault Rbac.Db Int) : Act Int :=
  fun s =>
    let served := Rbac.withToken S.C ⟨⟨none, []⟩, [], S.token⟩
      (fun appID => Rbac.written (x appID) 500 .id) s.rbac
    match p.net with
    | .unsent => (.error (.internal message), s)
    | .unanswered => (.error (.internal message), { s with rbac := served.2 })
    | .passes =>
      match responseID served.1 with
      | some n => (.ok n, { s with rbac := served.2 })
      | none => (.error (.internal message), { s with rbac := served.2 })

def postResource (v : Vars) : Act Int :=
  call S S.resource "添加资源出错" fun appID => Rbac.resourceAdd S.resource.my appID v.name v.comment

def postRole (v : Vars) : Act Int :=
  call S S.role "添加角色出错" fun appID =>
    Rbac.roleAdd S.role.my appID v.name v.user v.email Rbac.adminComment

def postRoleResource (roleID resID : Int) : Act Int :=
  call S S.grant "为项目授权角色出错" fun appID =>
    Rbac.roleResourceAdd S.grant.my appID roleID resID

def getConnection : Act Unit :=
  check <|
    match S.connect with
    | some _ => .error (.internal "连接数据库出错")
    | none => .ok ()

/-- The row of the insert; the id is taken from the table, and both times are `now()`. -/
def serviceEntry (v : Vars) : Entry serviceSchema :=
  .fresh (weight v.path)
    (fun n => ⟨n, v.roleID, v.resourceID, v.clusterID, v.name, v.user, false, v.email, v.path,
      v.source, v.version, v.comment, S.now, S.now⟩)
    (fun _ => rfl) fun _ => rfl

/-- `if strings.Contains(err.Error(), "1062")` -/
def insertMessage (e : String) : String :=
  if (index e "1062").isSome then "项目路径已存在, 项目路径在接口平台中是唯一的，不能重用" else e

def insertService (v : Vars) : Act Int := fun s =>
  match S.refuses with
  | some e => (.error (.internal (insertMessage e)), s)
  | none =>
    match Relations.insert s.service (serviceEntry S v) with
    | (.ok id, t) => (.ok id, { s with service := t })
    | (.error f, t) => (.error (.internal (insertMessage f.message)), { s with service := t })

/-- The body of `POST`, up to its last answer. -/
def post (q : Util.Request) : Act Int := do
  let u ← session S
  let v ← decode S q
  let resID ← postResource S (v.own u)
  let roleID ← postRole S (v.own u)
  let _ ← postRoleResource S roleID resID
  getConnection S
  insertService S { v.own u with resourceID := resID, roleID := roleID }

def servicePOST (q : Util.Request) : State → Resp × State :=
  (post S q).onErr Refusal.resp fun id s => (.status 0 (Relations.idMessage id), s)

end Handler

/-! ## All or nothing -/

/-- No row of the rbac database is different. -/
structure Same (db db' : Rbac.Db) : Prop where
  role : db'.role.rows = db.role.rows
  resource : db'.resource.rows = db.resource.rows
  user : db'.user.rows = db.user.rows
  roleUser : db'.roleUser.rows = db.roleUser.rows
  roleResource : db'.roleResource.rows = db.roleResource.rows

/-- No row of any table is different. -/
structure Unchanged (s s' : State) : Prop where
  rbac : Same s.rbac s'.rbac
  service : s'.service.rows = s.service.rows

/-- The answer is an error. -/
def Failed (r : Resp) : Prop := ∃ code message, r = .status code message ∧ code ≠ 0

/-- What the rbac databases make of a statement that a text has turned into another one. -/
def Server.astray (S : Server) (f : Rbac.Write → Rbac.Db → Except Rbac.Fault Int × Rbac.Db) :
    Server :=
  { S with
    resource := { S.resource with my := { S.resource.my with strayWrite := f } }
    role := { S.role with my := { S.role.my with strayWrite := f } }
    grant := { S.grant with my := { S.grant.my with strayWrite := f } } }

/-- A request that is answered with an error has changed no row, whatever becomes of a statement
    that is not the one the source meant. -/
def AllOrNothing (S : Server) (q : Util.Request) (s : State) : Prop :=
  ∀ f, Failed (servicePOST (S.astray f) q s).1 → Unchanged s (servicePOST (S.astray f) q s).2

/-! ## The plan of a request -/

/-- The first text that is empty makes the statement malformed, and the first that is not a literal
    makes another statement of it. -/
def reads : List String → Option Plan.Stop
  | [] => none
  | s :: ss =>
    if s = "" then some .refused
    else if (Rbac.readLiteral s).isNone then some .stray
    else reads ss

/-- A statement with its texts. -/
def statement (my : Rbac.Mysql) (w : Rbac.Write) (texts : List String) (keeps : Bool) : Plan.Step :=
  ⟨if (my.down (.write w)).isSome then some .refused else reads texts, keeps⟩

/-- The row is there, with that `mtime`. -/
def there {R K : Type} [DecidableEq K] {σ : Schema R K} (t : Table σ) (k : K) (mtime : R → String)
    (now : String) : Bool :=
  t.rows.any fun r => σ.key r = k && mtime r = now

/-- The value of a text that reads. -/
def value (s : String) : String := (Rbac.readLiteral s).getD ""

section Plan

variable (S : Server)

/-- The application of the token. -/
def Server.appID : Int :=
  match Rbac.parseToken S.C S.token with
  | .ok appID => appID
  | _ => 0

def Server.tokenOk : Bool :=
  match Rbac.parseToken S.C S.token with
  | .ok _ => true
  | _ => false

/-- The caller, when there is a session. -/
def Server.caller : User :=
  match S.user with
  | .ok u => u
  | .error _ => noUser

/-- What is decoded, with the caller's name. -/
def Server.vars (q : Util.Request) : Vars :=
  (decodeRequestValue Vars.fields S.valid q {}).2.own S.caller

variable (v : Vars) (db : Rbac.Db)

/-- The ids that the caller's row, the role and the resource have, or will get. -/
def userID : Int := db.user.idOf (S.appID, weight (value v.email))

def roleID : Int := db.role.idOf (S.appID, weight (value v.name))

def resourceID : Int := db.resource.idOf (S.appID, weight (value v.name))

def resourcePlan : List Plan.Step :=
  [statement S.resource.my (.addResource S.appID v.name v.comment) [v.name, v.comment]
    (there db.resource (S.appID, weight (value v.name)) (·.mtime) S.resource.my.now)]

/-- The second `UserAdd` finds the row of the first. -/
def rolePlan : List Plan.Step :=
  [statement S.role.my (.addUser S.appID v.user v.email) [v.user, v.email]
    (there db.user (S.appID, weight (value v.email)) (·.mtime) S.role.my.now),
   statement S.role.my (.addRole S.appID v.name (userID S v db) Rbac.adminComment)
    [v.name, Rbac.adminComment]
    (there db.role (S.appID, weight (value v.name)) (·.mtime) S.role.my.now),
   statement S.role.my (.addUser S.appID v.user v.email) [v.user, v.email] true,
   statement S.role.my (.addRoleUser S.appID (roleID S v db) (userID S v db)) []
    (there db.roleUser (S.appID, roleID S v db, userID S v db) (·.mtime) S.role.my.now)]

def grantPlan : List Plan.Step :=
  [statement S.grant.my (.addRoleResource S.appID (roleID S v db) (resourceID S v db)) []
    (there db.roleResource (S.appID, roleID S v db, resourceID S v db) (·.mtime) S.grant.my.now)]

/-- A call: the request arrives, its token is valid, its statements, and the answer arrives. -/
def callPlan (p : Peer) (statements : List Plan.Step) : List Plan.Step :=
  [Plan.gate (p.net ≠ .unsent), Plan.gate S.tokenOk] ++ statements ++
    [Plan.gate (p.net ≠ .unanswered)]

/-- The insert, which adds a row when it goes through. -/
def insertStep (t : Table serviceSchema) : Plan.Step :=
  ⟨if S.refuses.isNone && !t.rows.any (weight ·.path = weight v.path) then none
    else some .refused, false⟩

/-- The steps of a request, as the request and the state before it determine them. -/
def plan (q : Util.Request) (s : State) : List Plan.Step :=
  [Plan.gate S.user.isOk,
   Plan.gate (decodeRequestValue Vars.fields S.valid q {}).1.isNone] ++
  callPlan S S.resource (resourcePlan S (S.vars q) s.rbac) ++
  callPlan S S.role (rolePlan S (S.vars q) s.rbac) ++
  callPlan S S.grant (grantPlan S (S.vars q) s.rbac) ++
  [Plan.gate S.connect.isNone, insertStep S (S.vars q) s.service]

end Plan

end Collated

/-! ## Statements -/

/-- What reading the texts of a statement makes of it. -/
def faulted {α : Type} : Option Plan.Stop → α → Except Rbac.Fault α
  | none, a => .ok a
  | some .refused, _ => .error .malformed
  | some .stray, _ => .error .injected

theorem quoted_bind {α : Type} (s : String) (ss : List String) (k : String → Except Rbac.Fault α)
    (a : α) (hk : k (value s) = faulted (reads ss) a) :
    (Rbac.quoted s >>= k) = faulted (reads (s :: ss)) a := by
  unfold reads Rbac.quoted Rbac.literal
  by_cases hs : s = ""
  · rw [if_pos hs, if_pos hs]
    rfl
  · rw [if_neg hs, if_neg hs]
    unfold value at hk
    cases hr : Rbac.readLiteral s with
    | none => rfl
    | some v =>
      rw [hr] at hk
      exact hk

theorem rows_eq_iff_there {R K : Type} [DecidableEq K] {σ : Schema R K} (t : Table σ) (e : Entry σ)
    {mtime : R → String} {now : String} (htouch : ∀ r, e.touch r = r ↔ mtime r = now) :
    (t.upsert e).rows = t.rows ↔ there t e.key mtime now = true := by
  simp only [Table.upsert_rows_eq_iff, there, List.any_eq_true, Bool.and_eq_true,
    decide_eq_true_eq, htouch]

/-- A touch leaves the times alone when it comes at the time of the last one. -/
theorem touch_times (now ctime mtime : String) :
    Rbac.onUpdate now ctime (mtime ≠ now) = ctime ∧ now = mtime ↔ mtime = now := by
  by_cases h : mtime = now
  · simp [Rbac.onUpdate, h]
  · simp [h, Ne.symm h]

theorem touch_roleUserEntry (now : String) (appID n m : Int) (r : Rbac.RoleUserRow) :
    (Rbac.roleUserEntry now appID n m).touch r = r ↔ r.mtime = now := by
  obtain ⟨id, app, roleID, userID, ctime, mtime⟩ := r
  simp [Rbac.roleUserEntry, eq_comm]

theorem touch_roleResourceEntry (now : String) (appID n m : Int) (r : Rbac.RoleResourceRow) :
    (Rbac.roleResourceEntry now appID n m).touch r = r ↔ r.mtime = now := by
  obtain ⟨id, app, roleID, resourceID, ctime, mtime⟩ := r
  simp [Rbac.roleResourceEntry, eq_comm]

section Follows

variable [Collating] {Q : Rbac.Db → Prop} {wild : Prop} {my : Rbac.Mysql}

/-- A stray write fails, and `Q` does not hold after it. -/
def Wild (Q : Rbac.Db → Prop) (my : Rbac.Mysql) : Prop :=
  ∀ w db, ∃ f db', my.strayWrite w db = (.error f, db') ∧ ¬ Q db'

/-- A statement goes by its one step. -/
theorem follows_exec (hwild : wild → Wild Q my) {w : Rbac.Write} {texts : List String}
    {keeps : Bool} {db db' : Rbac.Db} {n : Int}
    (hden : w.denote my.now db = faulted (reads texts) (n, db'))
    (hQ : Q db' ↔ Q db ∧ keeps = true) :
    Action.Follows Q wild (Rbac.exec my w) db [statement my w texts keeps] n db' := by
  cases hd : my.down (.write w) with
  | some e =>
    have herr : Rbac.exec my w db = (.error (.down e), db) := by simp only [Rbac.exec, hd]
    exact Action.follows_of_refused (by simp [statement, hd]) herr Iff.rfl
  | none =>
    have hstop : (statement my w texts keeps).stop = reads texts := by simp [statement, hd]
    cases hr : reads texts with
    | none =>
      rw [hr] at hden
      exact Action.follows_of_go (hstop.trans hr) (by simp [Rbac.exec, hd, hden, faulted]) hQ
    | some e =>
      rw [hr] at hden
      cases e with
      | refused =>
        have herr : Rbac.exec my w db = (.error .malformed, db) := by
          simp only [Rbac.exec, hd, hden, faulted]
        exact Action.follows_of_refused (hstop.trans hr) herr Iff.rfl
      | stray =>
        refine Action.follows_of_stray (hstop.trans hr) fun hw => ?_
        obtain ⟨f, t, hf, ht⟩ := hwild hw w db
        exact ⟨f, t, by simp [Rbac.exec, hd, hden, faulted, hf], ht⟩

/-! ## What an upsert keeps -/

section Entries

variable (now : String) (appID n : Int) (name text : String)

theorem touch_resourceEntry (r : Rbac.Resource) :
    (Rbac.resourceEntry now appID name text).touch r = r ↔ r.mtime = now := by
  obtain ⟨id, app, nm, comments, ctime, mtime⟩ := r
  simp only [Rbac.resourceEntry, Rbac.Resource.mk.injEq, true_and]
  exact touch_times now ctime mtime

theorem touch_userEntry (u : Rbac.User) :
    (Rbac.userEntry now appID name text).touch u = u ↔ u.mtime = now := by
  obtain ⟨id, app, nm, email, ctime, mtime⟩ := u
  simp only [Rbac.userEntry, Rbac.User.mk.injEq, true_and]
  exact touch_times now ctime mtime

theorem touch_roleEntry (r : Rbac.Role) :
    (Rbac.roleEntry now appID name n text).touch r = r ↔ r.mtime = now := by
  obtain ⟨id, app, nm, userID, comments, ctime, mtime⟩ := r
  simp only [Rbac.roleEntry, Rbac.Role.mk.injEq, true_and]
  exact touch_times now ctime mtime

/-- The second `UserAdd` of a call changes nothing. -/
theorem rows_userEntry_twice (t : Table Rbac.userSchema) :
    ((t.upsert (Rbac.userEntry now appID name text)).upsert
        (Rbac.userEntry now appID name text)).rows =
      (t.upsert (Rbac.userEntry now appID name text)).rows :=
  t.upsert_upsert_rows _ (fun _ => (touch_userEntry now appID name text _).mpr rfl)
    fun _ => (touch_userEntry now appID name text _).mpr rfl

end Entries

/-! ## The three calls -/

section Calls

variable (S : Server) (v : Vars) (db₀ : Rbac.Db)

/-- The database after each of the calls. -/
def afterResource : Rbac.Db :=
  { db₀ with
    resource := db₀.resource.upsert
      (Rbac.resourceEntry S.resource.my.now S.appID (value v.name) (value v.comment)) }

def withUser (db : Rbac.Db) : Rbac.Db :=
  { db with
    user := db.user.upsert
      (Rbac.userEntry S.role.my.now S.appID (value v.user) (value v.email)) }

def withRole (db : Rbac.Db) : Rbac.Db :=
  { db with
    role := db.role.upsert (Rbac.roleEntry S.role.my.now S.appID (value v.name) (userID S v db₀)
      (value Rbac.adminComment)) }

def withMember (db : Rbac.Db) : Rbac.Db :=
  { db with
    roleUser := db.roleUser.upsert
      (Rbac.roleUserEntry S.role.my.now S.appID (roleID S v db₀) (userID S v db₀)) }

def afterRole : Rbac.Db :=
  withMember S v db₀ (withUser S v (withRole S v db₀ (withUser S v (afterResource S v db₀))))

def afterGrant : Rbac.Db :=
  { afterRole S v db₀ with
    roleResource := (afterRole S v db₀).roleResource.upsert
      (Rbac.roleResourceEntry S.grant.my.now S.appID (roleID S v db₀) (resourceID S v db₀)) }

variable {S v db₀}

theorem follows_resourceAdd (hwild : wild → Wild (Same db₀) S.resource.my) :
    Action.Follows (Same db₀) wild (Rbac.resourceAdd S.resource.my S.appID v.name v.comment) db₀
      (resourcePlan S v db₀) (resourceID S v db₀) (afterResource S v db₀) := by
  refine follows_exec hwild ?_ ?_
  · exact quoted_bind _ _ _ _ (quoted_bind _ _ _ _ rfl)
  · have hrows := rows_eq_iff_there db₀.resource _
      (touch_resourceEntry S.resource.my.now S.appID (value v.name) (value v.comment))
    constructor
    · exact fun h => ⟨⟨rfl, rfl, rfl, rfl, rfl⟩, hrows.mp h.resource⟩
    · exact fun h => { h.1 with resource := hrows.mpr h.2 }

/-- The first `UserAdd` of `RoleAdd`. -/
theorem follows_userAdd (hwild : wild → Wild (Same db₀) S.role.my) (v : Vars) (db : Rbac.Db)
    (hdb : db.user = db₀.user) :
    Action.Follows (Same db₀) wild (Rbac.userAdd S.role.my S.appID v.user v.email) db
      [statement S.role.my (.addUser S.appID v.user v.email) [v.user, v.email]
        (there db₀.user (S.appID, weight (value v.email)) (·.mtime) S.role.my.now)]
      (userID S v db₀) (withUser S v db) := by
  refine follows_exec hwild ?_ ?_
  · rw [userID, ← hdb]
    exact quoted_bind _ _ _ _ (quoted_bind _ _ _ _ rfl)
  · have hrows := rows_eq_iff_there db₀.user _
      (touch_userEntry S.role.my.now S.appID (value v.user) (value v.email))
    rw [← hdb] at hrows ⊢
    constructor
    · intro h
      exact ⟨{ h with user := congrArg Table.rows hdb }, hrows.mp (h.user.trans (by rw [hdb]))⟩
    · exact fun h => { h.1 with user := (hrows.mpr h.2).trans (by rw [hdb]) }

theorem follows_addRole (hwild : wild → Wild (Same db₀) S.role.my) (v : Vars) (db : Rbac.Db)
    (hdb : db.role = db₀.role) :
    Action.Follows (Same db₀) wild
      (Rbac.exec S.role.my (.addRole S.appID v.name (userID S v db₀) Rbac.adminComment)) db
      [statement S.role.my (.addRole S.appID v.name (userID S v db₀) Rbac.adminComment)
        [v.name, Rbac.adminComment]
        (there db₀.role (S.appID, weight (value v.name)) (·.mtime) S.role.my.now)]
      (roleID S v db₀) (withRole S v db₀ db) := by
  refine follows_exec hwild ?_ ?_
  · rw [roleID, ← hdb]
    exact quoted_bind _ _ _ _ (quoted_bind _ _ _ _ rfl)
  · have hrows := rows_eq_iff_there db₀.role _
      (touch_roleEntry S.role.my.now S.appID (userID S v db₀) (value v.name)
        (value Rbac.adminComment))
    rw [← hdb] at hrows ⊢
    constructor
    · intro h
      exact ⟨{ h with role := congrArg Table.rows hdb }, hrows.mp (h.role.trans (by rw [hdb]))⟩
    · exact fun h => { h.1 with role := (hrows.mpr h.2).trans (by rw [hdb]) }

/-- The second `UserAdd`, in `RoleUserAdd`. -/
theorem follows_userAdd_again (hwild : wild → Wild (Same db₀) S.role.my) (v : Vars) (db : Rbac.Db)
    (hdb : db.user = (withUser S v db₀).user) :
    Action.Follows (Same db₀) wild (Rbac.userAdd S.role.my S.appID v.user v.email) db
      [statement S.role.my (.addUser S.appID v.user v.email) [v.user, v.email] true]
      (userID S v db₀) (withUser S v db) := by
  refine follows_exec hwild ?_ ?_
  · have hid : userID S v db₀ = db.user.idOf (S.appID, weight (value v.email)) := by
      rw [hdb]
      exact (db₀.user.idOf_upsert
        (Rbac.userEntry S.role.my.now S.appID (value v.user) (value v.email))).symm
    rw [hid]
    exact quoted_bind _ _ _ _ (quoted_bind _ _ _ _ rfl)
  · have hrows : (withUser S v db).user.rows = db.user.rows := by
      simp only [withUser, hdb]
      exact rows_userEntry_twice S.role.my.now S.appID (value v.user) (value v.email) db₀.user
    constructor
    · exact fun h => ⟨{ h with user := hrows.symm.trans h.user }, rfl⟩
    · exact fun h => { h.1 with user := hrows.trans h.1.user }

theorem follows_addRoleUser (hwild : wild → Wild (Same db₀) S.role.my) (v : Vars) (db : Rbac.Db)
    (hdb : db.roleUser = db₀.roleUser) :
    Action.Follows (Same db₀) wild
      (Rbac.exec S.role.my (.addRoleUser S.appID (roleID S v db₀) (userID S v db₀))) db
      [statement S.role.my (.addRoleUser S.appID (roleID S v db₀) (userID S v db₀)) []
        (there db₀.roleUser (S.appID, roleID S v db₀, userID S v db₀) (·.mtime) S.role.my.now)]
      (db.roleUser.idOf (S.appID, roleID S v db₀, userID S v db₀)) (withMember S v db₀ db) := by
  refine follows_exec hwild rfl ?_
  have hrows := rows_eq_iff_there db₀.roleUser _
    (touch_roleUserEntry S.role.my.now S.appID (roleID S v db₀) (userID S v db₀))
  rw [← hdb] at hrows ⊢
  constructor
  · intro h
    exact ⟨{ h with roleUser := congrArg Table.rows hdb },
      hrows.mp (h.roleUser.trans (by rw [hdb]))⟩
  · exact fun h => { h.1 with roleUser := (hrows.mpr h.2).trans (by rw [hdb]) }

theorem follows_roleAdd (hwild : wild → Wild (Same db₀) S.role.my) :
    Action.Follows (Same db₀) wild
      (Rbac.roleAdd S.role.my S.appID v.name v.user v.email Rbac.adminComment)
      (afterResource S v db₀) (rolePlan S v db₀) (roleID S v db₀) (afterRole S v db₀) := by
  have hmember : Action.Follows (Same db₀) wild
      (Rbac.roleUserAdd S.role.my S.appID (roleID S v db₀) v.user v.email) _ _ _ _ :=
    Action.follows_bind
      (follows_userAdd_again hwild v (withRole S v db₀ (withUser S v (afterResource S v db₀))) rfl)
      (follows_addRoleUser hwild v
        (withUser S v (withRole S v db₀ (withUser S v (afterResource S v db₀)))) rfl)
  exact Action.follows_bind (follows_userAdd hwild v (afterResource S v db₀) rfl)
    (Action.follows_bind (follows_addRole hwild v (withUser S v (afterResource S v db₀)) rfl)
      (Action.follows_bind hmember (Action.follows_pure _ _)))

theorem follows_roleResourceAdd (hwild : wild → Wild (Same db₀) S.grant.my) :
    Action.Follows (Same db₀) wild
      (Rbac.roleResourceAdd S.grant.my S.appID (roleID S v db₀) (resourceID S v db₀))
      (afterRole S v db₀) (grantPlan S v db₀)
      (db₀.roleResource.idOf (S.appID, roleID S v db₀, resourceID S v db₀))
      (afterGrant S v db₀) := by
  refine follows_exec hwild rfl ?_
  have hrows := rows_eq_iff_there db₀.roleResource _
    (touch_roleResourceEntry S.grant.my.now S.appID (roleID S v db₀) (resourceID S v db₀))
  constructor
  · exact fun h => ⟨{ h with roleResource := rfl }, hrows.mp h.roleResource⟩
  · exact fun h => { h.1 with roleResource := hrows.mpr h.2 }

end Calls

/-! ## The request -/

section Request

variable {S : Server} {s₀ : State}

/-- The service table is not written by a call. -/
theorem unchanged_rbac_iff (db : Rbac.Db) : Unchanged s₀ { s₀ with rbac := db } ↔ Same s₀.rbac db :=
  ⟨fun h => h.rbac, fun h => ⟨h, rfl⟩⟩

/-- The statements of a call, against the whole state. -/
def stored (message : String) (x : Action Rbac.Fault Rbac.Db Int) : Act Int := fun s =>
  match x s.rbac with
  | (.ok n, db) => (.ok n, { s with rbac := db })
  | (.error _, db) => (.error (.internal message), { s with rbac := db })

/-- The value when `b` holds, and otherwise the refusal. -/
def require {α : Type} (b : Bool) (message : String) (a : α) : Act α :=
  check (if b then .ok a else .error (.internal message))

/-- A call is its four parts. -/
theorem call_eq (p : Peer) (message : String) (x : Int → Action Rbac.Fault Rbac.Db Int) :
    call S p message x = (do
      require (p.net ≠ .unsent) message ()
      require S.tokenOk message ()
      let n ← stored message (x S.appID)
      require (p.net ≠ .unanswered) message n) := by
  funext s
  cases hn : p.net <;> cases ht : Rbac.parseToken S.C S.token with
  | ok appID =>
    cases hx : x appID s.rbac with
    | mk r db =>
      cases r <;>
        simp [call, hn, require, check, Action.bind, bind, Rbac.withToken, ht, Rbac.written,
          Action.onErr, hx, responseID, Server.tokenOk, Server.appID, stored]
  | err e =>
    simp [call, hn, require, check, Action.bind, bind, Rbac.withToken, ht, Rbac.reading, responseID,
      Server.tokenOk]
  | panic e =>
    simp [call, hn, require, check, Action.bind, bind, Rbac.withToken, ht, Rbac.reading, responseID,
      Server.tokenOk]

theorem follows_require {α : Type} (b : Bool) (message : String) (a : α) (s : State) :
    Action.Follows (Unchanged s₀) wild (require b message a) s [Plan.gate b] a s := by
  cases b with
  | true => exact Action.follows_of_go rfl rfl (and_iff_left rfl).symm
  | false => exact Action.follows_of_refused rfl rfl Iff.rfl

theorem follows_stored {x : Action Rbac.Fault Rbac.Db Int} {db db' : Rbac.Db} {l : List Plan.Step}
    {n : Int} (message : String) (hx : Action.Follows (Same s₀.rbac) wild x db l n db') :
    Action.Follows (Unchanged s₀) wild (stored message x) { s₀ with rbac := db } l n
      { s₀ with rbac := db' } := by
  refine ⟨fun b h => ?_, fun b h => ?_, fun h hw => ?_⟩
  · obtain ⟨hok, hQ⟩ := hx.goes b h
    rw [unchanged_rbac_iff, unchanged_rbac_iff]
    exact ⟨by simp only [stored, hok], hQ⟩
  · obtain ⟨e, t, herr, hQ⟩ := hx.refused b h
    refine ⟨.internal message, { s₀ with rbac := t }, by simp only [stored, herr], ?_⟩
    rw [unchanged_rbac_iff, unchanged_rbac_iff]
    exact hQ
  · obtain ⟨e, t, herr, hQ⟩ := hx.stray h hw
    refine ⟨.internal message, { s₀ with rbac := t }, by simp only [stored, herr], ?_⟩
    rw [unchanged_rbac_iff]
    exact hQ

/-- A call goes by its plan when its statements do. -/
theorem follows_call {p : Peer} {x : Int → Action Rbac.Fault Rbac.Db Int} {db db' : Rbac.Db}
    {l : List Plan.Step} {n : Int} (message : String)
    (hx : Action.Follows (Same s₀.rbac) wild (x S.appID) db l n db') :
    Action.Follows (Unchanged s₀) wild (call S p message x) { s₀ with rbac := db }
      (callPlan S p l) n { s₀ with rbac := db' } := by
  have hplan : callPlan S p l = [Plan.gate (p.net ≠ .unsent)] ++
      ([Plan.gate S.tokenOk] ++ (l ++ [Plan.gate (p.net ≠ .unanswered)])) := by
    simp [callPlan]
  rw [call_eq, hplan]
  exact Action.follows_bind (follows_require _ message () _)
    (Action.follows_bind (follows_require _ message () _)
      (Action.follows_bind (follows_stored message hx) (follows_require _ message n _)))

/-- The insert adds a row, or stops and leaves the rows as they are. -/
theorem follows_insert (v : Vars) (db : Rbac.Db) :
    Action.Follows (Unchanged s₀) wild (insertService S v) { s₀ with rbac := db }
      [insertStep S v s₀.service] s₀.service.next
      ⟨db, s₀.service.upsert (serviceEntry S v)⟩ := by
  cases hr : S.refuses with
  | some e =>
    have herr : insertService S v { s₀ with rbac := db } =
        (.error (.internal (insertMessage e)), { s₀ with rbac := db }) := by
      simp only [insertService, hr]
    exact Action.follows_of_refused (by simp [insertStep, hr]) herr Iff.rfl
  | none =>
    cases hpath : s₀.service.rows.any (weight ·.path = weight v.path) with
    | true =>
      have hinsert : Relations.insert s₀.service (serviceEntry S v) =
          (.error .duplicate, s₀.service.skip) := if_pos hpath
      have herr : insertService S v { s₀ with rbac := db } =
          (.error (.internal (insertMessage Relations.Fault.duplicate.message)),
            ⟨db, s₀.service.skip⟩) := by
        simp only [insertService, hr, hinsert]
      exact Action.follows_of_refused (by simp [insertStep, hr, hpath]) herr
        ⟨fun h => ⟨h.rbac, rfl⟩, fun h => ⟨h.rbac, rfl⟩⟩
    | false =>
      have hinsert : Relations.insert s₀.service (serviceEntry S v) =
          (.ok s₀.service.next, s₀.service.upsert (serviceEntry S v)) :=
        if_neg (by simp only [Bool.not_eq_true]; exact hpath)
      refine Action.follows_of_go (by simp [insertStep, hr, hpath]) ?_ ?_
      · simp only [insertService, hr, hinsert]
      · refine iff_of_false (fun h => ?_) fun h => by cases h.2
        obtain ⟨r, hr, hk, -⟩ := (Table.upsert_rows_eq_iff _ _).mp h.service
        have hany := List.any_eq_false.mp hpath r hr
        exact hany (decide_eq_true hk)

theorem follows_session (s : State) :
    Action.Follows (Unchanged s₀) wild (session S) s [Plan.gate S.user.isOk] S.caller s := by
  unfold session Server.caller
  cases S.user with
  | ok u => exact Action.follows_of_go rfl rfl (and_iff_left rfl).symm
  | error e => exact Action.follows_of_refused rfl rfl Iff.rfl

theorem follows_decode (q : Util.Request) (s : State) :
    Action.Follows (Unchanged s₀) wild (decode S q) s
      [Plan.gate (decodeRequestValue Vars.fields S.valid q {}).1.isNone]
      (decodeRequestValue Vars.fields S.valid q {}).2 s := by
  unfold decode
  rcases decodeRequestValue Vars.fields S.valid q {} with ⟨_ | e, v⟩
  · exact Action.follows_of_go rfl rfl (and_iff_left rfl).symm
  · exact Action.follows_of_refused rfl rfl Iff.rfl

theorem follows_getConnection (s : State) :
    Action.Follows (Unchanged s₀) wild (getConnection S) s [Plan.gate S.connect.isNone] () s := by
  unfold getConnection
  cases S.connect with
  | none => exact Action.follows_of_go rfl rfl (and_iff_left rfl).symm
  | some e => exact Action.follows_of_refused rfl rfl Iff.rfl

/-- The state after a request that goes through. -/
def afterPost (S : Server) (q : Util.Request) (s : State) : State :=
  ⟨afterGrant S (S.vars q) s.rbac, s.service.upsert (serviceEntry S
    { S.vars q with
      resourceID := resourceID S (S.vars q) s.rbac, roleID := roleID S (S.vars q) s.rbac })⟩

/-- The whole request goes by its plan. -/
theorem follows_post (q : Util.Request) (s : State)
    (hresource : wild → Wild (Same s.rbac) S.resource.my)
    (hrole : wild → Wild (Same s.rbac) S.role.my)
    (hgrant : wild → Wild (Same s.rbac) S.grant.my) :
    Action.Follows (Unchanged s) wild (post S q) s (plan S q s) s.service.next
      (afterPost S q s) := by
  have hplan : plan S q s = [Plan.gate S.user.isOk] ++
      ([Plan.gate (decodeRequestValue Vars.fields S.valid q {}).1.isNone] ++
      (callPlan S S.resource (resourcePlan S (S.vars q) s.rbac) ++
      (callPlan S S.role (rolePlan S (S.vars q) s.rbac) ++
      (callPlan S S.grant (grantPlan S (S.vars q) s.rbac) ++
      ([Plan.gate S.connect.isNone] ++ [insertStep S (S.vars q) s.service]))))) := by
    simp [plan]
  rw [hplan]
  exact Action.follows_bind (follows_session s)
    (Action.follows_bind (follows_decode q s)
    (Action.follows_bind (follows_call _ (follows_resourceAdd hresource))
    (Action.follows_bind (follows_call _ (follows_roleAdd hrole))
    (Action.follows_bind (follows_call _ (follows_roleResourceAdd hgrant))
    (Action.follows_bind (follows_getConnection _) (follows_insert _ _))))))

end Request

/-- The answer is an error when the body of `POST` ends with one. -/
theorem servicePOST_of_error {S : Server} {q : Util.Request} {s t : State} {e : Refusal}
    (h : post S q s = (.error e, t)) : servicePOST S q s = (e.resp, t) :=
  Action.onErr_error h _ _

theorem failed_iff (S : Server) (q : Util.Request) (s : State) :
    Failed (servicePOST S q s).1 ↔ ∃ e t, post S q s = (.error e, t) := by
  rcases h : post S q s with ⟨e | id, t⟩
  · rw [servicePOST_of_error h]
    refine iff_of_true ?_ ⟨e, t, rfl⟩
    cases e with
    | badRequest m => exact ⟨400, m, rfl, by decide⟩
    | internal m => exact ⟨500, m, rfl, by decide⟩
  · have hok : servicePOST S q s = (.status 0 (Relations.idMessage id), t) :=
      Action.onErr_ok h _ _
    rw [hok]
    refine iff_of_false ?_ ?_
    · rintro ⟨code, message, hresp, hne⟩
      cases hresp
      exact hne rfl
    · rintro ⟨e, t', herr⟩
      cases herr

/-- Some other database. -/
def otherDb (db : Rbac.Db) : Rbac.Db :=
  if db.role.rows = [] then
    { db with role := db.role.upsert (Rbac.roleEntry "" 0 "" 0 "") }
  else { db with role := default }

theorem not_same_otherDb (db : Rbac.Db) : ¬ Same db (otherDb db) := by
  intro h
  have hrole := h.role
  unfold otherDb at hrole
  split at hrole
  · next hnil =>
    rw [Table.upsert_rows_eq_iff, hnil] at hrole
    obtain ⟨r, hr, -⟩ := hrole
    cases hr
  · next hne => exact hne hrole.symm

/-- A request that keeps the tables whatever a stray statement does has a quiet plan. -/
theorem quiet_of_allOrNothing {S : Server} {q : Util.Request} {s : State}
    (h : AllOrNothing S q s) : Plan.Quiet (plan S q s) := by
  -- a stray statement that fails and leaves another database behind
  let f : Rbac.Write → Rbac.Db → Except Rbac.Fault Int × Rbac.Db :=
    fun _ _ => (.error .injected, otherDb s.rbac)
  have hwild : ∀ w db, ∃ e t, f w db = (.error e, t) ∧ ¬ Same s.rbac t :=
    fun _ _ => ⟨.injected, _, rfl, not_same_otherDb s.rbac⟩
  have hpost : Action.Follows (Unchanged s) True (post (S.astray f) q) s _ _ _ :=
    follows_post q s (fun _ => hwild) (fun _ => hwild) fun _ => hwild
  refine hpost.quiet_of_keeps trivial fun e t herr => ?_
  have hunchanged := h f ((failed_iff _ _ _).mpr ⟨e, t, herr⟩)
  rw [servicePOST_of_error herr] at hunchanged
  exact hunchanged

/-- For every state of the databases, every request, and wherever it fails: an error leaves every
    row as it was exactly when the step that stops the request is not a statement a text has made
    another one of, and every step before it adds what is already there. -/
theorem allOrNothing_iff (S : Server) (q : Util.Request) (s : State) :
    AllOrNothing S q s ↔ Plan.Quiet (plan S q s) := by
  refine ⟨quiet_of_allOrNothing, fun hquiet f hfailed => ?_⟩
  obtain ⟨e, t, herr⟩ := (failed_iff _ _ _).mp hfailed
  have hpost : Action.Follows (Unchanged s) False (post (S.astray f) q) s _ _ _ :=
    follows_post q s False.elim False.elim False.elim
  rw [servicePOST_of_error herr]
  exact hpost.keeps_of_quiet ⟨⟨rfl, rfl, rfl, rfl, rfl⟩, rfl⟩ hquiet herr

/-! ## A path that is taken -/

/-- An administrator, databases that answer every statement, and the token of application 1. -/
def steadyServer : Server where
  user := .ok ⟨"root@doodle", "root", true, []⟩
  valid _ := none
  C := default
  token := tokenOf default [0x02]
  resource := ⟨.passes, .steady default⟩
  role := ⟨.passes, .steady default⟩
  grant := ⟨.passes, .steady default⟩
  connect := none
  refuses := none
  now := ""

/-- The service `pay` is there, and the rbac database is empty. -/
def payState : State where
  rbac := default
  service := (Table.empty serviceSchema).upsert
    (serviceEntry steadyServer { name := "pay", path := "pay", comment := "payments" })

end Follows

/-- Another service, for the same path. -/
def billRequest : Util.Request :=
  ⟨none, [("name", "bill"), ("user", "bob"), ("email", "bob@doodle"), ("path", "pay"),
    ("comment", "bills")]⟩

section Examples

attribute [local instance] asciiCi

/-- The path is refused, and the resource, the role, the user, the membership and the grant stay. -/
theorem duplicate_path_leaves_grant : ¬ AllOrNothing steadyServer billRequest payState := by
  intro h
  have hfate : Plan.fate (plan steadyServer billRequest payState) = .refused false := by
    decide +kernel
  rcases (quiet_of_allOrNothing h).fate_eq with ⟨b, hgoes⟩ | hrefused
  · rw [hfate] at hgoes
    cases hgoes
  · rw [hfate] at hrefused
    cases hrefused

end Examples

end Doodle.Manager.ServicePost
