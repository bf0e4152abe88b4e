/-
  What creating a service grants.

  The manager's `service` POST makes three calls to the rbac server: it adds a resource and a role
  of the service's name, puts the caller into the role and grants the role the resource. Every
  step is an upsert, so a name that is already taken gives back the old resource or the old role.

  `Db.Reaches` is the relation behind `UserResourceGet`: a user row of the application, a
  membership and a grant. `grantsOnlyNew_iff` says, for every database, caller, name and comment,
  that the three steps give access to the new resource and to the caller only, exactly when the
  texts are read as meant and the ids the three names have (or get) carry no access of their own
  (`Db.Unshared`). Names and emails count by their weights.
-/
import Doodle.Rbac.Server

namespace Doodle.Rbac

open Doodle.Lib

theorem exists_gt (l : List Int) : ∃ y, ∀ x ∈ l, x < y := by
  induction l with
  | nil => exact ⟨0, by simp⟩
  | cons a l ih =>
    obtain ⟨y, hy⟩ := ih
    refine ⟨max y (a + 1), fun x hx => ?_⟩
    rcases List.mem_cons.mp hx with rfl | hx
    · omega
    · have := hy x hx
      omega

/-- The comment of the role that `service` POST adds. -/
def adminComment : String := "默认添加的管理组"

theorem quoted_adminComment : quoted adminComment = .ok adminComment :=
  quoted_ok_iff.mpr ⟨by decide, by simp [readLiteral, adminComment, readChars, quote, backslash]⟩

section Collated

variable [Collating]

/-! ## Access -/

/-- A user row of the application whose email has this weight, a membership of it (in any
    application), and a grant of the application to that role. -/
def Db.Reaches (db : Db) (appID : Int) (email : String) (resID : Int) : Prop :=
  ∃ uid roleID app, db.user.Holds uid (appID, email) ∧ db.roleUser.Has (app, roleID, uid) ∧
    db.roleResource.Has (appID, roleID, resID)

theorem isUserOf_iff (db : Db) (appID : Int) (email : String) (uid : Int) :
    db.isUserOf appID email uid ↔ db.user.Holds uid (appID, weight email) := by
  simp [Db.isUserOf, Table.Holds, and_comm]

theorem isRoleOf_iff (db : Db) (appID : Int) (email : String) (roleID : Int) :
    db.isRoleOf appID email roleID ↔
      ∃ uid app, db.user.Holds uid (appID, weight email) ∧ db.roleUser.Has (app, roleID, uid) := by
  simp only [Db.isRoleOf, List.any_eq_true, Bool.and_eq_true, decide_eq_true_eq, isUserOf_iff]
  constructor
  · rintro ⟨ru, hru, rfl, hu⟩
    exact ⟨ru.userID, ru.appID, hu, ru.id, ru, hru, rfl, rfl⟩
  · rintro ⟨uid, app, hu, n, ru, hru, -, hkey⟩
    obtain ⟨-, hrole, huser⟩ : ru.appID = app ∧ ru.roleID = roleID ∧ ru.userID = uid := by
      simpa using hkey
    exact ⟨ru, hru, hrole, huser ▸ hu⟩

/-- The select of `UserResourceGet`. -/
def resourceIDsSelect (appID : Int) (email : String) : Select :=
  ⟨.resourceIDs appID email, "", "", 0, 0⟩

/-- `UserResourceGet` returns the ids in reach. -/
theorem mem_userResourceGet (my : Mysql) (appID : Int) (email v : String) (db : Db)
    (hdown : my.down (.select (resourceIDsSelect appID email)) = none)
    (hread : readLiteral email = some v) :
    ∃ ids, userResourceGet my appID email db = .ok ids ∧
      ∀ resID, resID ∈ ids ↔ db.Reaches appID (weight v) resID := by
  have hparse : (resourceIDsSelect appID email).parse = .ok (.resourceIDs appID v) := by
    simp only [resourceIDsSelect, Select.parse, Query.parse, literal, hread]
    rfl
  have hget : userResourceGet my appID email db = .ok ((my.arrange (resourceIDsSelect appID email)
      (((db.roleResource.rows.filter fun rr => rr.appID = appID && db.isRoleOf appID v rr.roleID).map
        (·.resourceID)).dedup.map .id)).filterMap Row.resourceID?) := by
    unfold userResourceGet queryAll
    rw [← resourceIDsSelect, select_of_parse hdown hparse]
    rfl
  refine ⟨_, hget, fun resID => ?_⟩
  simp only [List.mem_filterMap, (my.arrange_perm _ _).mem_iff, List.mem_map, List.mem_dedup,
    List.mem_filter, Bool.and_eq_true, decide_eq_true_eq, isRoleOf_iff]
  constructor
  · rintro ⟨_, ⟨n, ⟨rr, ⟨hrr, happ, uid, app, hu, hru⟩, rfl⟩, rfl⟩, hid⟩
    cases hid
    exact ⟨uid, rr.roleID, app, hu, hru, rr.id, rr, hrr, rfl, by simp [happ]⟩
  · rintro ⟨uid, roleID, app, hu, hru, n, rr, hrr, -, hkey⟩
    obtain ⟨happ, rfl, rfl⟩ : rr.appID = appID ∧ rr.roleID = roleID ∧ rr.resourceID = resID := by
      simpa using hkey
    exact ⟨_, ⟨_, ⟨rr, ⟨hrr, happ, uid, app, hu, hru⟩, rfl⟩, rfl⟩, rfl⟩

/-- The resource is in the answer of `UserResourceGet`. -/
def Accesses (my : Mysql) (appID : Int) (email : String) (resID : Int) (db : Db) : Prop :=
  ∃ ids, userResourceGet my appID email db = .ok ids ∧ resID ∈ ids

theorem accesses_iff (my : Mysql) (appID : Int) (email v : String) (resID : Int) (db : Db)
    (hread : readLiteral email = some v) :
    Accesses my appID email resID db ↔
      my.down (.select (resourceIDsSelect appID email)) = none ∧
        db.Reaches appID (weight v) resID := by
  cases hdown : my.down (.select (resourceIDsSelect appID email)) with
  | some e =>
    have herr : userResourceGet my appID email db = .error (.down e) := by
      unfold userResourceGet queryAll
      rw [← resourceIDsSelect, select_down hdown]
      rfl
    refine iff_of_false ?_ fun h => by cases h.1
    rintro ⟨ids, h, -⟩
    rw [herr] at h
    cases h
  | none =>
    obtain ⟨ids, hids, hmem⟩ := mem_userResourceGet my appID email v db hdown hread
    rw [Accesses, hids]
    constructor
    · rintro ⟨_, h, hr⟩
      cases h
      exact ⟨rfl, (hmem resID).mp hr⟩
    · rintro ⟨-, hr⟩
      exact ⟨ids, rfl, (hmem resID).mpr hr⟩

/-! ## The three steps -/

/-- The three calls of `service` POST: `PostResource`, `PostRole`, `PostRoleResource`. -/
def serviceGrants (my : Mysql) (appID : Int) (name comment user email : String) :
    Action Fault Db Int := do
  let resID ← resourceAdd my appID name comment
  let roleID ← roleAdd my appID name user email adminComment
  roleResourceAdd my appID roleID resID

/-- From `db` to `db'`, every resource that was there stays in reach of the emails it was in
    reach of, and a resource that comes into reach is new, and is in reach of the caller only: of
    emails that the database does not tell from the caller's. -/
def OnlyNew (my : Mysql) (appID : Int) (email : String) (db db' : Db) : Prop :=
  (∀ e, readable e → ∀ s ∈ db.resource.rows,
    (Accesses my appID e s.id db' ↔ Accesses my appID e s.id db)) ∧
  ∀ e resID, readable e → Accesses my appID e resID db' → ¬ Accesses my appID e resID db →
    (readLiteral e).map weight = (readLiteral email).map weight ∧
      (∀ s ∈ db.resource.rows, s.id ≠ resID) ∧ ∃ s ∈ db'.resource.rows, s.id = resID

/-- Creating the service grants access to the new resource, and to the caller, only. -/
def GrantsOnlyNew (appID : Int) (name comment user email : String) (db : Db) : Prop :=
  ∀ my : Mysql, OnlyNew my appID email db (serviceGrants my appID name comment user email db).2

/-- The resource the service's name will get, when no resource has the name. -/
def Db.NewResource (db : Db) (appID : Int) (name : String) (resID : Int) : Prop :=
  resID = db.resource.idOf (appID, name) ∧ ∀ s ∈ db.resource.rows, s.id ≠ resID

/-- The ids that the caller's email, the role and the resource have, or will get, carry no access
    that the caller, or another member of the role, does not already have. Names and emails are
    weights. -/
structure Db.Unshared (db : Db) (appID : Int) (name email : String) : Prop where
  /-- memberships under the caller's id -/
  caller : ∀ app roleID resID, db.roleUser.Has (app, roleID, db.user.idOf (appID, email)) →
    db.roleResource.Has (appID, roleID, resID) →
    db.Reaches appID email resID ∨ db.NewResource appID name resID
  /-- grants under the role's id -/
  role : ∀ resID, db.roleResource.Has (appID, db.role.idOf (appID, name), resID) →
    db.Reaches appID email resID ∨ db.NewResource appID name resID
  /-- a resource of the name that is already there -/
  resource : ∀ s ∈ db.resource.rows, s.id = db.resource.idOf (appID, name) →
    db.Reaches appID email s.id
  /-- members of a role of the name that is already there -/
  members : ∀ e uid app, e ≠ email → db.user.Holds uid (appID, e) →
    db.roleUser.Has (app, db.role.idOf (appID, name), uid) →
    db.Reaches appID e (db.resource.idOf (appID, name))

/-! ## Every state on the way is between the first and the last -/

/-- The database has what `db₀` has, and beyond it at most the caller's row, the membership and
    the grant; the resource is there. The name and the email are weights. -/
structure Within (appID : Int) (name email : String) (db₀ db : Db) : Prop where
  userID : db.user.idOf (appID, email) = db₀.user.idOf (appID, email)
  roleID : db.role.idOf (appID, name) = db₀.role.idOf (appID, name)
  resource : db.resource.Holds (db₀.resource.idOf (appID, name)) (appID, name)
  user : ∀ n k, db₀.user.Holds n k → db.user.Holds n k
  user_le : ∀ n k, db.user.Holds n k →
    db₀.user.Holds n k ∨ n = db₀.user.idOf (appID, email) ∧ k = (appID, email)
  roleUser : ∀ k, db₀.roleUser.Has k → db.roleUser.Has k
  roleUser_le : ∀ k, db.roleUser.Has k →
    db₀.roleUser.Has k ∨ k = (appID, db₀.role.idOf (appID, name), db₀.user.idOf (appID, email))
  roleResource : ∀ k, db₀.roleResource.Has k → db.roleResource.Has k
  roleResource_le : ∀ k, db.roleResource.Has k → db₀.roleResource.Has k ∨
    k = (appID, db₀.role.idOf (appID, name), db₀.resource.idOf (appID, name))

section Steps

variable {appID : Int} {name comment user email : String} {n c u v : String} {db₀ : Db}

theorem denote_addUser (now : String) (db : Db) (hu : quoted user = .ok u)
    (hv : quoted email = .ok v) : (Write.addUser appID user email).denote now db =
      .ok (db.user.idOf (appID, weight v),
        { db with user := db.user.upsert (userEntry now appID u v) }) := by
  simp only [Write.denote, hu, hv]
  rfl

theorem denote_addRole (now : String) (db : Db) (uid : Int) (hn : quoted name = .ok n)
    (hc : quoted comment = .ok c) : (Write.addRole appID name uid comment).denote now db =
      .ok (db.role.idOf (appID, weight n),
        { db with role := db.role.upsert (roleEntry now appID n uid c) }) := by
  simp only [Write.denote, hn, hc]
  rfl

theorem denote_addResource (now : String) (db : Db) (hn : quoted name = .ok n)
    (hc : quoted comment = .ok c) : (Write.addResource appID name comment).denote now db =
      .ok (db.resource.idOf (appID, weight n),
        { db with resource := db.resource.upsert (resourceEntry now appID n c) }) := by
  simp only [Write.denote, hn, hc]
  rfl

theorem Within.upsert_user (db : Db) (h : Within appID (weight n) (weight v) db₀ db) (now : String) :
    Within appID (weight n) (weight v) db₀
      { db with user := db.user.upsert (userEntry now appID u v) } :=
  { h with
    userID := by
      rw [← h.userID]
      exact db.user.idOf_upsert (userEntry now appID u v)
    user := fun m k hk => (db.user.holds_upsert _ m k).mpr (.inl (h.user m k hk))
    user_le := fun m k hk => by
      rcases (db.user.holds_upsert _ m k).mp hk with hk | ⟨rfl, rfl⟩
      · exact h.user_le m k hk
      · exact .inr ⟨h.userID, rfl⟩ }

theorem Within.upsert_role (db : Db) (h : Within appID (weight n) (weight v) db₀ db) (now : String)
    (uid : Int) : Within appID (weight n) (weight v) db₀
      { db with role := db.role.upsert (roleEntry now appID n uid c) } :=
  { h with
    roleID := by
      rw [← h.roleID]
      exact db.role.idOf_upsert (roleEntry now appID n uid c) }

theorem Within.upsert_roleUser (db : Db) (h : Within appID (weight n) (weight v) db₀ db)
    (now : String) : Within appID (weight n) (weight v) db₀
      { db with
        roleUser := db.roleUser.upsert (roleUserEntry now appID (db₀.role.idOf (appID, weight n))
          (db₀.user.idOf (appID, weight v))) } :=
  { h with
    roleUser := fun k hk => (db.roleUser.has_upsert _ k).mpr (.inl (h.roleUser k hk))
    roleUser_le := fun k hk => by
      rcases (db.roleUser.has_upsert _ k).mp hk with hk | rfl
      · exact h.roleUser_le k hk
      · exact .inr rfl }

theorem Within.upsert_roleResource (db : Db) (h : Within appID (weight n) (weight v) db₀ db)
    (now : String) : Within appID (weight n) (weight v) db₀
      { db with
        roleResource := db.roleResource.upsert (roleResourceEntry now appID
          (db₀.role.idOf (appID, weight n)) (db₀.resource.idOf (appID, weight n))) } :=
  { h with
    roleResource := fun k hk => (db.roleResource.has_upsert _ k).mpr (.inl (h.roleResource k hk))
    roleResource_le := fun k hk => by
      rcases (db.roleResource.has_upsert _ k).mp hk with hk | rfl
      · exact h.roleResource_le k hk
      · exact .inr rfl }

/-- After the first step. -/
theorem within_resource (now : String) :
    Within appID (weight n) (weight v) db₀
      { db₀ with resource := db₀.resource.upsert (resourceEntry now appID n c) } where
  userID := rfl
  roleID := rfl
  resource := (db₀.resource.holds_upsert _ _ _).mpr (.inr ⟨rfl, rfl⟩)
  user _ _ h := h
  user_le _ _ h := .inl h
  roleUser _ h := h
  roleUser_le _ h := .inl h
  roleResource _ h := h
  roleResource_le _ h := .inl h

theorem ensures_userAdd (my : Mysql) (hu : quoted user = .ok u) (hv : quoted email = .ok v) :
    (userAdd my appID user email).Ensures (Within appID (weight n) (weight v) db₀)
      (· = db₀.user.idOf (appID, weight v)) := by
  refine ensures_exec my _ (clean_of_quoted hu hv) fun db hdb m db' h => ?_
  rw [denote_addUser my.now db hu hv] at h
  cases h
  exact ⟨hdb.upsert_user db my.now, hdb.userID⟩

theorem ensures_roleUserAdd (my : Mysql) (hu : quoted user = .ok u) (hv : quoted email = .ok v) :
    (roleUserAdd my appID (db₀.role.idOf (appID, weight n)) user email).Ensures
      (Within appID (weight n) (weight v) db₀) fun _ => True := by
  refine Action.ensures_bind (ensures_userAdd my hu hv) ?_
  rintro uid rfl
  refine ensures_exec my _ rfl fun db hdb m db' h => ?_
  cases h
  exact ⟨hdb.upsert_roleUser db my.now, trivial⟩

theorem ensures_roleAdd (my : Mysql) (hn : quoted name = .ok n) (hu : quoted user = .ok u)
    (hv : quoted email = .ok v) :
    (roleAdd my appID name user email adminComment).Ensures (Within appID (weight n) (weight v) db₀)
      (· = db₀.role.idOf (appID, weight n)) := by
  refine Action.ensures_bind (ensures_userAdd my hu hv) fun uid _ => ?_
  have hrole : (exec my (.addRole appID name uid adminComment)).Ensures
      (Within appID (weight n) (weight v) db₀) (· = db₀.role.idOf (appID, weight n)) := by
    refine ensures_exec my _ (clean_of_quoted hn quoted_adminComment) fun db hdb m db' h => ?_
    rw [denote_addRole my.now db uid hn quoted_adminComment] at h
    cases h
    exact ⟨hdb.upsert_role db my.now uid, hdb.roleID⟩
  refine Action.ensures_bind hrole ?_
  rintro rid rfl
  exact Action.ensures_bind (ensures_roleUserAdd my hu hv) fun _ _ => Action.ensures_pure rfl

theorem ensures_roleResourceAdd (my : Mysql) :
    (roleResourceAdd my appID (db₀.role.idOf (appID, weight n))
      (db₀.resource.idOf (appID, weight n))).Ensures
      (Within appID (weight n) (weight v) db₀) fun _ => True := by
  refine ensures_exec my _ rfl fun db hdb m db' h => ?_
  cases h
  exact ⟨hdb.upsert_roleResource db my.now, trivial⟩

/-- The steps after the first. -/
theorem ensures_rest (my : Mysql) (hn : quoted name = .ok n) (hu : quoted user = .ok u)
    (hv : quoted email = .ok v) :
    (do
      let roleID ← roleAdd my appID name user email adminComment
      roleResourceAdd my appID roleID (db₀.resource.idOf (appID, weight n))).Ensures
      (Within appID (weight n) (weight v) db₀) fun _ => True := by
  refine Action.ensures_bind (ensures_roleAdd my hn hu hv) ?_
  rintro rid rfl
  exact ensures_roleResourceAdd my

end Steps

/-! ## What is in reach on the way -/

theorem Within.reaches {appID : Int} {name email : String} {db₀ db : Db}
    (h : Within appID name email db₀ db) {e : String} {resID : Int}
    (hr : db₀.Reaches appID e resID) : db.Reaches appID e resID := by
  obtain ⟨uid, roleID, app, hu, hru, hrr⟩ := hr
  exact ⟨uid, roleID, app, h.user _ _ hu, h.roleUser _ hru, h.roleResource _ hrr⟩

/-- What comes into reach on the way is the new resource, in reach of the caller. -/
theorem Within.reaches_old {appID : Int} {name email : String} {db₀ db : Db}
    (h : Within appID name email db₀ db) (hun : db₀.Unshared appID name email) {e : String}
    {resID : Int} (hr : db.Reaches appID e resID) :
    db₀.Reaches appID e resID ∨ e = email ∧ db₀.NewResource appID name resID := by
  have hnew : db₀.Reaches appID email (db₀.resource.idOf (appID, name)) ∨
      db₀.NewResource appID name (db₀.resource.idOf (appID, name)) := by
    by_cases hold : ∃ s ∈ db₀.resource.rows, s.id = db₀.resource.idOf (appID, name)
    · obtain ⟨s, hs, hid⟩ := hold
      exact .inl (hid ▸ hun.resource s hs hid)
    · exact .inr ⟨rfl, fun s hs hid => hold ⟨s, hs, hid⟩⟩
  have hcaller : ∀ {x}, db₀.Reaches appID email x ∨ db₀.NewResource appID name x →
      db₀.Reaches appID email x ∨ email = email ∧ db₀.NewResource appID name x :=
    fun hx => hx.imp_right fun hx => ⟨rfl, hx⟩
  obtain ⟨uid, roleID, app, hu, hru, hrr⟩ := hr
  rcases h.user_le _ _ hu with hu | ⟨rfl, hkey⟩
  · rcases h.roleUser_le _ hru with hru | hkey
    · rcases h.roleResource_le _ hrr with hrr | hkey
      · exact .inl ⟨uid, roleID, app, hu, hru, hrr⟩
      · -- the role is granted the resource: its members reach it
        cases hkey
        by_cases he : e = email
        · rw [he]
          exact hcaller hnew
        · exact .inl (hun.members e uid app he hu hru)
    · -- the membership is added: only the caller has its user id
      cases hkey
      cases db₀.user.eq_of_holds_idOf hu
      rcases h.roleResource_le _ hrr with hrr | hkey
      · exact hcaller (hun.role resID hrr)
      · cases hkey
        exact hcaller hnew
  · -- the user row is added: it is the caller's
    cases hkey
    rcases h.roleResource_le _ hrr with hrr | hkey
    · rcases h.roleUser_le _ hru with hru | hkey
      · exact hcaller (hun.caller app roleID resID hru hrr)
      · cases hkey
        exact hcaller (hun.role resID hrr)
    · cases hkey
      exact hcaller hnew

/-- The property in terms of the relation. -/
theorem onlyNew_of_reaches {my : Mysql} {appID : Int} {email : String} {db db' : Db}
    (hge : ∀ e resID, db.Reaches appID e resID → db'.Reaches appID e resID)
    (hle : ∀ e resID, db'.Reaches appID e resID → db.Reaches appID e resID ∨
      (readLiteral email).map weight = some e ∧ (∀ s ∈ db.resource.rows, s.id ≠ resID) ∧
        ∃ s ∈ db'.resource.rows, s.id = resID) : OnlyNew my appID email db db' := by
  constructor
  · intro e he s hs
    obtain ⟨v, hv⟩ := Option.isSome_iff_exists.mp he
    rw [accesses_iff my appID e v s.id db' hv, accesses_iff my appID e v s.id db hv]
    refine and_congr_right fun _ => ⟨fun h => ?_, hge (weight v) s.id⟩
    rcases hle (weight v) s.id h with h | ⟨-, hnew, -⟩
    · exact h
    · exact absurd rfl (hnew s hs)
  · intro e resID he h hnot
    obtain ⟨v, hv⟩ := Option.isSome_iff_exists.mp he
    rw [accesses_iff my appID e v resID _ hv] at h hnot
    rcases hle (weight v) resID h.2 with hold | ⟨hemail, hnew⟩
    · exact absurd ⟨h.1, hold⟩ hnot
    · exact ⟨by rw [hv, hemail, Option.map_some], hnew⟩

/-- A database whose users, memberships and grants are as they were. -/
theorem onlyNew_of_same {my : Mysql} {appID : Int} {email : String} {db db' : Db}
    (hu : db'.user = db.user) (hru : db'.roleUser = db.roleUser)
    (hrr : db'.roleResource = db.roleResource) : OnlyNew my appID email db db' := by
  have hsame : ∀ e resID, db'.Reaches appID e resID ↔ db.Reaches appID e resID := by
    intro e resID
    simp only [Db.Reaches, hu, hru, hrr]
  exact onlyNew_of_reaches (fun e resID h => (hsame e resID).mpr h)
    fun e resID h => .inl ((hsame e resID).mp h)

/-- The texts are read as meant, and when the steps run to the end, the ids are not shared. -/
theorem grantsOnlyNew_of_unshared {appID : Int} {name comment user email : String} {db : Db}
    (hclean : clean [name, comment, user, email] = true)
    (hun : ∀ n c u v, quoted name = .ok n → quoted comment = .ok c → quoted user = .ok u →
      quoted email = .ok v → db.Unshared appID (weight n) (weight v)) :
    GrantsOnlyNew appID name comment user email db := by
  intro my
  unfold serviceGrants resourceAdd
  rcases exec_cases my (.addResource appID name comment) db with ⟨f, hf⟩ | ⟨m, db₁, hd, he⟩ | hc
  · rw [Action.bind_error hf]
    exact onlyNew_of_same rfl rfl rfl
  · obtain ⟨n, c, hn, hc, hr⟩ := quoted_pair_ok (by simpa only [Write.denote] using hd)
    obtain ⟨rfl, rfl⟩ := Prod.mk.inj hr
    rw [Action.bind_ok he]
    rw [clean_cons_of_quoted hn, clean_cons_of_quoted hc] at hclean
    rcases exec_cases my (.addUser appID user email)
      { db with resource := db.resource.upsert (resourceEntry my.now appID n c) } with
      ⟨f, hf⟩ | ⟨m, db₂, hd, -⟩ | hc
    · -- the user is rejected: only the resource has been added
      have hrole : roleAdd my appID name user email adminComment _ = _ := Action.bind_error hf _
      rw [Action.bind_error hrole]
      exact onlyNew_of_same rfl rfl rfl
    · obtain ⟨u, v, hu, hv, -⟩ := quoted_pair_ok (by simpa only [Write.denote] using hd)
      have hstart : Within appID (weight n) (weight v) db
          { db with resource := db.resource.upsert (resourceEntry my.now appID n c) } :=
        within_resource my.now
      have hin := (ensures_rest my hn hu hv _ hstart).1
      refine onlyNew_of_reaches (fun e resID h => hin.reaches h) fun e resID h => ?_
      refine (hin.reaches_old (hun n c u v hn hc hu hv) h).imp_right ?_
      rintro ⟨rfl, rfl, hnew⟩
      obtain ⟨s, hs, hid, -⟩ := hin.resource
      exact ⟨by rw [(quoted_ok_iff.mp hv).2, Option.map_some], hnew, s, hs, hid⟩
    · rw [show clean [user, email] = false from hc] at hclean
      cases hclean
  · have := clean_append (l := [name, comment]) (m := [user, email]) hclean
    rw [show clean [name, comment] = false from hc] at this
    cases this

/-! ## The condition is needed -/

/-- One user with this email, and one resource in its reach. -/
def oneGrant (appID : Int) (email : String) (resID : Int) : Db where
  role := default
  resource := default
  user := (default : Table userSchema).upsert (userEntry "" appID "" email)
  roleUser := (default : Table roleUserSchema).upsert (roleUserEntry "" appID 1 1)
  roleResource := (default : Table roleResourceSchema).upsert (roleResourceEntry "" appID 1 resID)

theorem oneGrant_reaches (appID : Int) (email : String) (resID : Int) :
    (oneGrant appID email resID).Reaches appID (weight email) resID :=
  ⟨1, 1, appID, (Table.holds_upsert _ _ _ _).mpr (.inr ⟨rfl, rfl⟩),
    (Table.has_upsert _ _ _).mpr (.inr rfl), (Table.has_upsert _ _ _).mpr (.inr rfl)⟩

/-- A statement that goes astray can give access to anything. -/
theorem exists_not_onlyNew (appID : Int) (email : String) (db : Db) :
    ∃ bad, ∀ my : Mysql, (∀ s, my.down s = none) → ¬ OnlyNew my appID email db bad := by
  obtain ⟨resID, hres⟩ := exists_gt (db.roleResource.rows.map (·.resourceID))
  have he : readLiteral "a" = some "a" := by decide
  refine ⟨oneGrant appID "a" resID, fun my hdown h => ?_⟩
  have hreach := (accesses_iff my appID "a" "a" resID _ he).mpr
    ⟨hdown _, oneGrant_reaches appID "a" resID⟩
  have hno : ¬ Accesses my appID "a" resID db := by
    rw [accesses_iff my appID "a" "a" resID _ he]
    rintro ⟨-, uid, roleID, app, -, -, n, rr, hrr, -, hkey⟩
    have := hres rr.resourceID (List.mem_map_of_mem hrr)
    have hid : rr.resourceID = resID := by
      cases hkey
      rfl
    omega
  obtain ⟨-, -, s, hs, -⟩ := h.2 "a" resID (by simp [readable, he]) hreach hno
  cases hs

/-- The database after all three steps, with the texts read as `n`, `c`, `u` and `v`. -/
def grantedDb (now : String) (appID : Int) (n c u v : String) (db : Db) : Db where
  role := db.role.upsert (roleEntry now appID n (db.user.idOf (appID, weight v)) adminComment)
  resource := db.resource.upsert (resourceEntry now appID n c)
  user := (db.user.upsert (userEntry now appID u v)).upsert (userEntry now appID u v)
  roleUser := db.roleUser.upsert
    (roleUserEntry now appID (db.role.idOf (appID, weight n)) (db.user.idOf (appID, weight v)))
  roleResource := db.roleResource.upsert
    (roleResourceEntry now appID (db.role.idOf (appID, weight n))
      (db.resource.idOf (appID, weight n)))

theorem serviceGrants_run {my : Mysql} {appID : Int} {name comment user email n c u v : String}
    (db : Db) (hdown : ∀ s, my.down s = none) (hn : quoted name = .ok n)
    (hc : quoted comment = .ok c) (hu : quoted user = .ok u) (hv : quoted email = .ok v) :
    (serviceGrants my appID name comment user email db).2 = grantedDb my.now appID n c u v db := by
  have huid : (db.user.upsert (userEntry my.now appID u v)).idOf (appID, weight v) =
      db.user.idOf (appID, weight v) := db.user.idOf_upsert (userEntry my.now appID u v)
  have hresource : resourceAdd my appID name comment db = _ :=
    exec_of_denote (hdown _) (denote_addResource my.now db hn hc)
  have huser : ∀ db', userAdd my appID user email db' = _ := fun db' =>
    exec_of_denote (hdown _) (denote_addUser my.now db' hu hv)
  have hrole : ∀ db' uid, exec my (.addRole appID name uid adminComment) db' = _ := fun db' uid =>
    exec_of_denote (hdown _) (denote_addRole my.now db' uid hn quoted_adminComment)
  have hroleUser : ∀ db' roleID uid, exec my (.addRoleUser appID roleID uid) db' = _ :=
    fun db' roleID uid => exec_of_denote (hdown _) rfl
  have hgrant : ∀ db' roleID resID, roleResourceAdd my appID roleID resID db' = _ :=
    fun db' roleID resID => exec_of_denote (hdown _) rfl
  unfold serviceGrants
  rw [Action.bind_ok hresource]
  have hmember : ∀ db' roleID, roleUserAdd my appID roleID user email db' = _ := fun db' roleID =>
    (Action.bind_ok (huser db') _).trans (hroleUser _ _ _)
  have hroleAdd : ∀ db', roleAdd my appID name user email adminComment db' = _ := fun db' =>
    (Action.bind_ok (huser db') _).trans ((Action.bind_ok (hrole _ _) _).trans
      (Action.bind_ok (hmember _ _) _))
  rw [Action.bind_ok (hroleAdd _), hgrant]
  simp only [grantedDb, huid]

/-- With the texts read as meant, the condition on the database is needed. -/
theorem unshared_of_onlyNew {my : Mysql} {appID : Int} {email n c u v : String} {db : Db}
    (hdown : ∀ s, my.down s = none) (hv : readLiteral email = some v)
    (h : OnlyNew my appID email db (grantedDb my.now appID n c u v db)) :
    db.Unshared appID (weight n) (weight v) := by
  have hgain : ∀ e resID, (grantedDb my.now appID n c u v db).Reaches appID (weight e) resID →
      db.Reaches appID (weight e) resID ∨
        weight e = weight v ∧ db.NewResource appID (weight n) resID := by
    intro e resID hr
    by_cases hold : db.Reaches appID (weight e) resID
    · exact .inl hold
    obtain ⟨e', he'⟩ := exists_readLiteral e
    have hnew := h.2 e' resID (by simp [readable, he'])
      ((accesses_iff my appID e' e resID _ he').mpr ⟨hdown _, hr⟩)
      fun ha => hold ((accesses_iff my appID e' e resID _ he').mp ha).2
    rw [he', hv, Option.map_some, Option.map_some, Option.some.injEq] at hnew
    obtain ⟨hcaller, hfresh, s, hs, hid⟩ := hnew
    refine .inr ⟨hcaller, ?_, hfresh⟩
    rcases (db.resource.holds_upsert _ resID _).mp ⟨s, hs, hid, rfl⟩ with ⟨s', hs', hid', -⟩ | hnew
    · exact absurd hid' (hfresh s' hs')
    · exact hnew.1
  have huser : ∀ uid k, db.user.Holds uid k ∨
      uid = db.user.idOf (appID, weight v) ∧ k = (appID, weight v) →
      (grantedDb my.now appID n c u v db).user.Holds uid k := fun uid k hk =>
    (Table.holds_upsert _ _ _ _).mpr (.inl ((Table.holds_upsert _ _ _ _).mpr hk))
  have hmember : ∀ k, db.roleUser.Has k ∨
      k = (appID, db.role.idOf (appID, weight n), db.user.idOf (appID, weight v)) →
      (grantedDb my.now appID n c u v db).roleUser.Has k := fun k hk =>
    (Table.has_upsert _ _ _).mpr hk
  have hgrant : ∀ k, db.roleResource.Has k ∨
      k = (appID, db.role.idOf (appID, weight n), db.resource.idOf (appID, weight n)) →
      (grantedDb my.now appID n c u v db).roleResource.Has k := fun k hk =>
    (Table.has_upsert _ _ _).mpr hk
  constructor
  · intro app roleID resID hru hrr
    exact (hgain v resID ⟨_, roleID, app, huser _ _ (.inr ⟨rfl, rfl⟩), hmember _ (.inl hru),
      hgrant _ (.inl hrr)⟩).imp_right And.right
  · intro resID hrr
    exact (hgain v resID ⟨_, _, _, huser _ _ (.inr ⟨rfl, rfl⟩), hmember _ (.inr rfl),
      hgrant _ (.inl hrr)⟩).imp_right And.right
  · intro s hs hid
    rcases hgain v s.id ⟨_, _, _, huser _ _ (.inr ⟨rfl, rfl⟩), hmember _ (.inr rfl),
      hgrant _ (.inr (by rw [hid]))⟩ with hold | ⟨-, -, hfresh⟩
    · exact hold
    · exact absurd rfl (hfresh s hs)
  · rintro e uid app hne ⟨r, hr, rfl, hkey⟩ hru
    obtain ⟨happ, rfl⟩ := Prod.mk.inj hkey
    have hu : db.user.Holds r.id (appID, weight r.email) := ⟨r, hr, rfl, hkey⟩
    rcases hgain r.email _ ⟨r.id, _, app, huser _ _ (.inl hu), hmember _ (.inl hru),
      hgrant _ (.inr rfl)⟩ with hold | ⟨he, -⟩
    · exact hold
    · exact absurd he hne

/-- When a text is no literal, some statement goes astray. -/
theorem serviceGrants_astray {appID : Int} {name comment user email : String} (db bad : Db)
    (h : clean [name, comment, user, email] = false) :
    (serviceGrants (.steady bad) appID name comment user email db).2 = bad := by
  have hfirst : clean [name, comment] = false → _ := fun hc => by
    have hx : resourceAdd (.steady bad) appID name comment db = (.error .injected, bad) :=
      exec_of_not_clean (w := .addResource appID name comment) rfl hc db
    exact congrArg Prod.snd (Action.bind_error hx fun resID => do
      let roleID ← roleAdd (.steady bad) appID name user email adminComment
      roleResourceAdd (.steady bad) appID roleID resID)
  cases hn : quoted name with
  | error f => exact hfirst (by rw [← h]; exact clean_cons_of_error hn _ _)
  | ok n =>
    rw [clean_cons_of_quoted hn] at h
    cases hc : quoted comment with
    | error f =>
      refine hfirst ?_
      rw [clean_cons_of_quoted hn, ← h]
      exact clean_cons_of_error hc _ _
    | ok c =>
      rw [clean_cons_of_quoted hc] at h
      have hx : resourceAdd (.steady bad) appID name comment db = _ :=
        exec_of_denote rfl (denote_addResource _ db hn hc)
      have hy : ∀ db', roleAdd (.steady bad) appID name user email adminComment db' =
          (.error .injected, bad) := fun db' =>
        Action.bind_error (exec_of_not_clean (w := .addUser appID user email) rfl h db') _
      unfold serviceGrants
      rw [Action.bind_ok hx, Action.bind_error (hy _)]

/-- Creating a service grants access to the new resource, and to the caller, only, exactly when
    every text is read as meant (or an empty one stops the steps), and the ids that the caller,
    the role and the resource have, or will get, are not shared. -/
theorem grantsOnlyNew_iff (appID : Int) (name comment user email : String) (db : Db) :
    GrantsOnlyNew appID name comment user email db ↔
      clean [name, comment, user, email] = true ∧
      ∀ n c u v, quoted name = .ok n → quoted comment = .ok c → quoted user = .ok u →
        quoted email = .ok v → db.Unshared appID (weight n) (weight v) := by
  constructor
  · intro h
    constructor
    · by_contra hclean
      obtain ⟨bad, hbad⟩ := exists_not_onlyNew appID email db
      refine hbad (.steady bad) (fun _ => rfl) ?_
      have := h (.steady bad)
      rwa [serviceGrants_astray db bad (Bool.eq_false_iff.mpr hclean)] at this
    · intro n c u v hn hc hu hv
      have := h (.steady default)
      rw [serviceGrants_run db (fun _ => rfl) hn hc hu hv] at this
      exact unshared_of_onlyNew (fun _ => rfl) (quoted_ok_iff.mp hv).2 this
  · rintro ⟨hclean, hun⟩
    exact grantsOnlyNew_of_unshared hclean hun

/-- The database after Alice has created the service `pay` in an empty application. -/
def aliceDb : Db := grantedDb "" 1 "pay" "payments" "alice" "alice@doodle" default

end Collated

/-- Mallory creates a service of the same name, and reaches Alice's resource. -/
theorem serviceGrants_takeover : ¬ ∃ _ : Collating,
    weight "mallory@doodle" ≠ weight "alice@doodle" ∧
      GrantsOnlyNew 1 "pay" "mine" "mallory" "mallory@doodle" aliceDb := by
  rintro ⟨_, hother, h⟩
  have hread : ∀ s ∈ ["pay", "mine", "mallory", "mallory@doodle"], quoted s = .ok s := by
    simp [quoted_ok_iff, readLiteral, readChars, quote, backslash]
  have hnew := h (.steady default)
  rw [serviceGrants_run aliceDb (fun _ => rfl) (hread _ (by simp)) (hread _ (by simp))
    (hread _ (by simp)) (hread _ (by simp))] at hnew
  have hun := unshared_of_onlyNew (fun _ => rfl) (quoted_ok_iff.mp (hread _ (by simp))).2 hnew
  have hid : aliceDb.resource.idOf (1, weight "pay") = 1 :=
    (default : Table resourceSchema).idOf_upsert (resourceEntry "" 1 "pay" "payments")
  obtain ⟨uid, roleID, app, hu, -⟩ :=
    hun.resource ⟨1, 1, "pay", "payments", "", ""⟩ (List.mem_singleton.mpr rfl) hid.symm
  -- the one user row is Alice's
  rcases (Table.holds_upsert _ _ _ _).mp hu with hu | ⟨-, hkey⟩
  · rcases (Table.holds_upsert _ _ _ _).mp hu with ⟨r, hr, -⟩ | ⟨-, hkey⟩
    · cases hr
    · exact hother (Prod.mk.inj hkey).2
  · exact hother (Prod.mk.inj hkey).2

end Doodle.Rbac
