/-
  Links between the rbac tables.

  A row of `role_user` or `role_resource` names its role, its user and its resource by id; there
  are no foreign keys. `Db.Consistent` says that the rows it names exist and are of its own
  application. The handlers insert links by the ids of the request and delete the linked rows in
  several statements, so each statement is given the condition under which it keeps the tables
  consistent (`Write.Links`, `consistent_denote`), and each endpoint the condition on its request
  that gives its statements theirs (`WriteEndpoint.Links`).

  `consistent_of_linked`: in a run from empty tables in which every request meets its condition, the
  tables are consistent in every state. The conditions that are not about splicing are on three
  endpoints: a link is posted between rows that exist, and a role to delete has no grants and no
  members of another application.
-/
import Doodle.Lib.Runs
import Doodle.Lib.Triple
import Doodle.Rbac.Client
import Doodle.Rbac.Frame

namespace Doodle.Rbac

open Doodle.Lib Doodle.Util Doodle.Go

/-! ## Rows that links name -/

section Owned

variable {R : Type} {σ : Schema R (Int × String)}

/-- A row of this id is there, under a key of the application. -/
def Owned (t : Table σ) (appID id : Int) : Prop := ∃ name, t.Holds id (appID, name)

theorem Owned.upsert {t : Table σ} {appID id : Int} (h : Owned t appID id) (e : Entry σ) :
    Owned (t.upsert e) appID id := by
  obtain ⟨name, hname⟩ := h
  exact ⟨name, (t.holds_upsert e _ _).mpr (.inl hname)⟩

theorem owned_upsert (t : Table σ) (e : Entry σ) : Owned (t.upsert e) e.key.1 (t.idOf e.key) :=
  ⟨e.key.2, (t.holds_upsert e _ _).mpr (.inr ⟨rfl, rfl⟩)⟩

/-- An update that keeps the application of each row. -/
theorem Owned.update {t t' : Table σ} {p : R → Bool} {f : R → R}
    {hid : ∀ r, σ.id (f r) = σ.id r} {appID id : Int} (h : Owned t appID id)
    (ht : t.update p f hid = some t') (happ : ∀ r, (σ.key (f r)).1 = (σ.key r).1) :
    Owned t' appID id := by
  obtain ⟨name, r, hr, rfl, hkey⟩ := h
  have hmem : (if p r then f r else r) ∈ t'.rows := by
    rw [Table.update_rows ht]
    exact List.mem_map_of_mem hr
  by_cases hp : p r = true
  · rw [if_pos hp] at hmem
    have hfst : (σ.key (f r)).1 = appID := by rw [happ, hkey]
    exact ⟨(σ.key (f r)).2, f r, hmem, hid r, Prod.ext hfst rfl⟩
  · rw [if_neg hp] at hmem
    exact ⟨name, r, hmem, rfl, hkey⟩

/-- A delete keeps the row unless it picks it. -/
theorem Owned.delete {t : Table σ} {p : R → Bool} {appID id : Int} (h : Owned t appID id)
    (hp : ∀ r ∈ t.rows, σ.id r = id → p r = false) : Owned (t.delete p) appID id := by
  obtain ⟨name, r, hr, hid, hkey⟩ := h
  refine ⟨name, r, List.mem_filter.mpr ⟨hr, ?_⟩, hid, hkey⟩
  rw [hp r hr hid]
  rfl

end Owned

/-- A link after an upsert is one that was there, or the new one. -/
theorem key_of_upsert {R K : Type} {σ : Schema R K} [DecidableEq K] {t : Table σ} {e : Entry σ}
    {r : R} (hr : r ∈ (t.upsert e).rows) : (∃ r' ∈ t.rows, σ.key r' = σ.key r) ∨ σ.key r = e.key := by
  rcases (t.holds_upsert e (σ.id r) (σ.key r)).mp ⟨r, hr, rfl, rfl⟩ with ⟨r', hr', -, hk⟩ | ⟨-, hk⟩
  · exact .inl ⟨r', hr', hk⟩
  · exact .inr hk

theorem literal_ok_iff {s v : String} : literal s = .ok v ↔ readLiteral s = some v := by
  unfold literal
  cases readLiteral s with
  | none => simp
  | some w => simp

/-! ## Consistent tables -/

section Collated

variable [Collating]

namespace Db

def HasRole (db : Db) (appID id : Int) : Prop := ∃ r ∈ db.role.rows, r.id = id ∧ r.appID = appID

def HasUser (db : Db) (appID id : Int) : Prop := ∃ u ∈ db.user.rows, u.id = id ∧ u.appID = appID

def HasResource (db : Db) (appID id : Int) : Prop :=
  ∃ s ∈ db.resource.rows, s.id = id ∧ s.appID = appID

/-- The rows that a link names exist, in the application of the link. -/
structure Consistent (db : Db) : Prop where
  roleUser : ∀ ru ∈ db.roleUser.rows, db.HasRole ru.appID ru.roleID ∧ db.HasUser ru.appID ru.userID
  roleResource : ∀ rr ∈ db.roleResource.rows,
    db.HasRole rr.appID rr.roleID ∧ db.HasResource rr.appID rr.resourceID

/-- Tables without rows, whatever their next ids are. -/
structure Empty (db : Db) : Prop where
  role : db.role.rows = []
  resource : db.resource.rows = []
  user : db.user.rows = []
  roleUser : db.roleUser.rows = []
  roleResource : db.roleResource.rows = []

theorem Empty.consistent {db : Db} (h : db.Empty) : db.Consistent where
  roleUser ru hru := by
    rw [h.roleUser] at hru
    cases hru
  roleResource rr hrr := by
    rw [h.roleResource] at hrr
    cases hrr

/-- No link names the role. -/
def Unlinked (db : Db) (roleID : Int) : Prop :=
  (∀ ru ∈ db.roleUser.rows, ru.roleID ≠ roleID) ∧ ∀ rr ∈ db.roleResource.rows, rr.roleID ≠ roleID

end Db

theorem hasRole_iff (db : Db) (appID id : Int) : db.HasRole appID id ↔ Owned db.role appID id := by
  simp [Db.HasRole, Owned, Table.Holds]

theorem hasUser_iff (db : Db) (appID id : Int) : db.HasUser appID id ↔ Owned db.user appID id := by
  simp [Db.HasUser, Owned, Table.Holds]

theorem hasResource_iff (db : Db) (appID id : Int) :
    db.HasResource appID id ↔ Owned db.resource appID id := by
  simp [Db.HasResource, Owned, Table.Holds]

/-- Consistent tables stay so when no link is new and every row that a link names stays. -/
theorem Db.Consistent.of_sublinks {db db' : Db} (h : db.Consistent)
    (hru : ∀ ru ∈ db'.roleUser.rows, ru ∈ db.roleUser.rows)
    (hrr : ∀ rr ∈ db'.roleResource.rows, rr ∈ db.roleResource.rows)
    (hrole : ∀ appID id, db.HasRole appID id → ¬ db'.Unlinked id → db'.HasRole appID id)
    (huser : ∀ appID id, db.HasUser appID id → db'.HasUser appID id)
    (hres : ∀ rr ∈ db'.roleResource.rows, db.HasResource rr.appID rr.resourceID →
      db'.HasResource rr.appID rr.resourceID) : db'.Consistent where
  roleUser ru hmem := by
    obtain ⟨hr, hu⟩ := h.roleUser ru (hru ru hmem)
    exact ⟨hrole _ _ hr fun hun => hun.1 ru hmem rfl, huser _ _ hu⟩
  roleResource rr hmem := by
    obtain ⟨hr, hs⟩ := h.roleResource rr (hrr rr hmem)
    exact ⟨hrole _ _ hr fun hun => hun.2 rr hmem rfl, hres rr hmem hs⟩

/-- Tables from which only links go stay consistent. -/
theorem Db.Consistent.of_fewer_links {db : Db} (h : db.Consistent)
    {roleUser : Table roleUserSchema} {roleResource : Table roleResourceSchema}
    (hru : ∀ ru ∈ roleUser.rows, ru ∈ db.roleUser.rows)
    (hrr : ∀ rr ∈ roleResource.rows, rr ∈ db.roleResource.rows) :
    { db with roleUser := roleUser, roleResource := roleResource : Db }.Consistent :=
  h.of_sublinks hru hrr (fun _ _ hr _ => hr) (fun _ _ hu => hu) fun _ _ hs => hs

/-! ## Single statements -/

/-- What a statement has to meet for consistent tables to stay so. -/
def Write.Links (db : Db) : Write → Prop
  | .addRoleUser appID roleID userID => db.HasRole appID roleID ∧ db.HasUser appID userID
  | .addRoleResource appID roleID resourceID =>
    db.HasRole appID roleID ∧ db.HasResource appID resourceID
  | .deleteRole _ (.id n) => db.Unlinked n
  | .deleteRole appID (.name s) => ∀ v, readLiteral s = some v →
    ∀ r ∈ db.role.rows, r.appID = appID → weight r.name = weight v → db.Unlinked r.id
  | .deleteResource id => ∀ rr ∈ db.roleResource.rows, rr.resourceID ≠ id
  | _ => True

/-- A statement that meets its condition keeps consistent tables consistent. -/
theorem consistent_denote {now : String} {db db' : Db} {w : Write} {n : Int} (hdb : db.Consistent)
    (h : w.denote now db = .ok (n, db')) (hw : w.Links db) : db'.Consistent := by
  have hmem : ∀ {α : Type} (l : List α), ∀ x ∈ l, x ∈ l := fun _ _ hx => hx
  have hdel : ∀ {R K : Type} {σ : Schema R K} (t : Table σ) (p : R → Bool),
      ∀ r ∈ (t.delete p).rows, r ∈ t.rows := fun _ _ _ hr => List.mem_of_mem_filter hr
  cases w with
  | addUser app name email =>
    obtain ⟨a, b, -, -, hr⟩ := quoted_pair_ok (by simpa only [Write.denote] using h)
    cases hr
    refine hdb.of_sublinks (hmem _) (hmem _) (fun _ _ hr _ => hr) (fun app id hu => ?_)
      fun _ _ hs => hs
    rw [hasUser_iff] at hu ⊢
    exact hu.upsert _
  | addRole app name userID comments =>
    obtain ⟨a, b, -, -, hr⟩ := quoted_pair_ok (by simpa only [Write.denote] using h)
    cases hr
    refine hdb.of_sublinks (hmem _) (hmem _) (fun app id hr _ => ?_) (fun _ _ hu => hu)
      fun _ _ hs => hs
    rw [hasRole_iff] at hr ⊢
    exact hr.upsert _
  | addResource app name comments =>
    obtain ⟨a, b, -, -, hr⟩ := quoted_pair_ok (by simpa only [Write.denote] using h)
    cases hr
    refine hdb.of_sublinks (hmem _) (hmem _) (fun _ _ hr _ => hr) (fun _ _ hu => hu)
      fun rr _ hs => ?_
    rw [hasResource_iff] at hs ⊢
    exact hs.upsert _
  | addRoleUser app roleID userID =>
    cases h
    refine ⟨fun ru hru => ?_, hdb.roleResource⟩
    rcases key_of_upsert hru with ⟨ru', hru', hk⟩ | hk
    · simp only [Prod.mk.injEq] at hk
      rw [← hk.1, ← hk.2.1, ← hk.2.2]
      exact hdb.roleUser ru' hru'
    · cases hk
      exact hw
  | addRoleResource app roleID resourceID =>
    cases h
    refine ⟨hdb.roleUser, fun rr hrr => ?_⟩
    rcases key_of_upsert hrr with ⟨rr', hrr', hk⟩ | hk
    · simp only [Prod.mk.injEq] at hk
      rw [← hk.1, ← hk.2.1, ← hk.2.2]
      exact hdb.roleResource rr' hrr'
    · cases hk
      exact hw
  | updateRole id app name comments =>
    simp only [Write.denote] at h
    obtain ⟨a, -, h⟩ := except_bind_ok h
    obtain ⟨b, -, h⟩ := except_bind_ok h
    obtain ⟨t, ht, hr⟩ := update_of_unique h
    cases hr
    refine hdb.of_sublinks (hmem _) (hmem _) (fun app id hr _ => ?_) (fun _ _ hu => hu)
      fun _ _ hs => hs
    rw [hasRole_iff] at hr ⊢
    exact hr.update ht fun _ => rfl
  | updateUser id app name email =>
    simp only [Write.denote] at h
    obtain ⟨a, -, h⟩ := except_bind_ok h
    obtain ⟨b, -, h⟩ := except_bind_ok h
    obtain ⟨t, ht, hr⟩ := update_of_unique h
    cases hr
    refine hdb.of_sublinks (hmem _) (hmem _) (fun _ _ hr _ => hr) (fun app id hu => ?_)
      fun _ _ hs => hs
    rw [hasUser_iff] at hu ⊢
    exact hu.update ht fun _ => rfl
  | deleteMembers app role =>
    rcases role with _ | ⟨m⟩ | ⟨s⟩
    · cases h
    · cases h
      exact hdb.of_fewer_links (hdel _ _) (hmem _)
    · simp only [Write.denote] at h
      obtain ⟨a, -, h⟩ := except_bind_ok h
      cases h
      exact hdb.of_fewer_links (hdel _ _) (hmem _)
  | deleteRole app role =>
    rcases role with ⟨m⟩ | ⟨s⟩
    · cases h
      refine hdb.of_sublinks (hmem _) (hmem _) (fun app id hr hlinked => ?_) (fun _ _ hu => hu)
        fun _ _ hs => hs
      rw [hasRole_iff] at hr ⊢
      refine hr.delete fun r _ hid => decide_eq_false ?_
      rintro rfl
      exact hlinked (hid ▸ hw)
    · simp only [Write.denote] at h
      obtain ⟨v, hv, h⟩ := except_bind_ok h
      cases h
      refine hdb.of_sublinks (hmem _) (hmem _) (fun app id hr hlinked => ?_) (fun _ _ hu => hu)
        fun _ _ hs => hs
      rw [hasRole_iff] at hr ⊢
      refine hr.delete fun r hr hid => ?_
      rw [Bool.and_eq_false_iff, decide_eq_false_iff_not, decide_eq_false_iff_not, ← not_and_or]
      rintro ⟨happ, hname⟩
      exact hlinked (hid ▸ hw v (literal_ok_iff.mp hv) r hr happ hname)
  | deleteMember app roleID email =>
    simp only [Write.denote] at h
    obtain ⟨a, -, h⟩ := except_bind_ok h
    cases h
    exact hdb.of_fewer_links (hdel _ _) (hmem _)
  | deleteGrant app roleID resourceID =>
    cases h
    exact hdb.of_fewer_links (hmem _) (hdel _ _)
  | deleteResource id =>
    cases h
    refine hdb.of_sublinks (hmem _) (hmem _) (fun _ _ hr _ => hr) (fun _ _ hu => hu)
      fun rr hrr hs => ?_
    rw [hasResource_iff] at hs ⊢
    exact hs.delete fun r _ hid => decide_eq_false fun heq => hw rr hrr (hid.symm.trans heq)
  | deleteGrants resourceID =>
    cases h
    exact hdb.of_fewer_links (hmem _) (hdel _ _)

/-! ## Programs -/

section Programs

variable (my : Mysql) {P : Db → Prop}

/-- The rule of pre- and postconditions for one clean statement. -/
theorem triple_exec {Q : Int → Db → Prop} {I : Db → Prop} (w : Write)
    (hclean : ∀ db, P db → w.clean = true)
    (h : ∀ db, P db → ∀ n db', w.denote my.now db = .ok (n, db') → Q n db')
    (hI : ∀ db, P db → I db) : (exec my w).Triple P Q fun _ => I := by
  intro db hP
  rcases exec_cases my w db with ⟨f, hf⟩ | ⟨n, db', hd, he⟩ | hc
  · rw [hf]
    refine ⟨fun a s' heq => (by cases heq), fun e s' heq => ?_⟩
    cases heq
    exact hI db hP
  · rw [he]
    refine ⟨fun a s' heq => ?_, fun e s' heq => (by cases heq)⟩
    cases heq
    exact h db hP n db' hd
  · rw [hclean db hP] at hc
    cases hc

/-- The last statement of a program. -/
theorem triple_links (w : Write) (hclean : ∀ db, P db → w.clean = true)
    (hdb : ∀ db, P db → db.Consistent) (hw : ∀ db, P db → w.Links db) :
    (exec my w).Triple P (fun _ => Db.Consistent) fun _ => Db.Consistent :=
  triple_exec my w hclean (fun db hP _ _ h => consistent_denote (hdb db hP) h (hw db hP)) hdb

/-- What else is known and does not depend on the users stays known. -/
theorem triple_userAdd (appID : Int) {name email : String} (hc : clean [name, email] = true)
    {K : Db → Prop} (hK : ∀ db t, K db → K { db with user := t }) :
    (userAdd my appID name email).Triple (fun db => db.Consistent ∧ K db)
      (fun uid db => db.Consistent ∧ K db ∧ db.HasUser appID uid ∧
        ∃ u v, quoted name = .ok u ∧ quoted email = .ok v)
      fun _ => Db.Consistent := by
  refine triple_exec my (.addUser appID name email) (fun _ _ => hc) (fun db hdb n db' h => ?_)
    fun db hdb => hdb.1
  have hdb' := consistent_denote hdb.1 h trivial
  obtain ⟨u, v, hu, hv, hr⟩ := quoted_pair_ok (by simpa only [Write.denote] using h)
  cases hr
  refine ⟨hdb', hK db _ hdb.2, ?_, u, v, hu, hv⟩
  rw [hasUser_iff]
  exact owned_upsert db.user (userEntry my.now appID u v)

/-- The role is looked at only when a user was added. -/
theorem triple_roleUserAdd {appID roleID : Int} {name email : String}
    (hc : clean [name, email] = true) :
    (roleUserAdd my appID roleID name email).Triple
      (fun db => db.Consistent ∧ (name = "" ∨ email = "" ∨ db.HasRole appID roleID))
      (fun _ => Db.Consistent) fun _ => Db.Consistent := by
  refine Action.triple_bind (triple_userAdd my appID hc fun _ _ h => h) fun uid => ?_
  refine triple_links my _ (fun _ _ => rfl) (fun db hdb => hdb.1) ?_
  rintro db ⟨-, hrole, huser, u, v, hu, hv⟩
  rcases hrole with rfl | rfl | hrole
  · exact absurd rfl (quoted_ok_iff.mp hu).1
  · exact absurd rfl (quoted_ok_iff.mp hv).1
  · exact ⟨hrole, huser⟩

theorem triple_roleAdd {appID : Int} {name user email comments : String}
    (hc : clean [user, email, name, comments] = true) :
    (roleAdd my appID name user email comments).Triple Db.Consistent (fun _ => Db.Consistent)
      fun _ => Db.Consistent := by
  have hcu : clean [user, email] = true := clean_append (l := [user, email]) hc
  have hadd := triple_userAdd my appID hcu (K := fun _ => True) fun _ _ h => h
  refine Action.triple_bind (fun db hdb => hadd db ⟨hdb, trivial⟩) fun uid => ?_
  refine Action.triple_bind (Q := fun rid db => db.Consistent ∧ db.HasRole appID rid)
    (triple_exec my (.addRole appID name uid comments) ?_ ?_ fun db hdb => hdb.1) fun rid => ?_
  · rintro db ⟨-, -, -, u, v, hu, hv⟩
    rwa [clean_cons_of_quoted hu, clean_cons_of_quoted hv] at hc
  · intro db hdb n db' h
    refine ⟨consistent_denote hdb.1 h trivial, ?_⟩
    obtain ⟨a, b, -, -, hr⟩ := quoted_pair_ok (by simpa only [Write.denote] using h)
    cases hr
    rw [hasRole_iff]
    exact owned_upsert db.role (roleEntry my.now appID a uid b)
  · refine Action.triple_bind (Q := fun _ => Db.Consistent) ?_ fun _ => ?_
    · exact fun db hdb => triple_roleUserAdd my hcu db ⟨hdb.1, .inr (.inr hdb.2)⟩
    · exact Action.triple_pure fun _ hdb => hdb

/-- A role of this id that the members of other applications and the grants do not name. -/
theorem triple_roleDelete_id {appID id : Int} (hid : id ≠ 0) (name : String) :
    (roleDelete my appID id name).Triple
      (fun db => db.Consistent ∧ (∀ ru ∈ db.roleUser.rows, ru.roleID = id → ru.appID = appID) ∧
        ∀ rr ∈ db.roleResource.rows, rr.roleID ≠ id)
      (fun _ => Db.Consistent) fun _ => Db.Consistent := by
  unfold roleDelete
  rw [if_pos hid]
  refine Action.triple_bind (Q := fun _ db => db.Consistent ∧ db.Unlinked id)
    (triple_exec my _ (fun _ _ => rfl) ?_ fun db hdb => hdb.1) fun _ => ?_
  · rintro db ⟨hdb, hmembers, hgrants⟩ n db' h
    refine ⟨consistent_denote hdb h trivial, ?_⟩
    cases h
    refine ⟨fun ru hru hrole => ?_, hgrants⟩
    obtain ⟨hmem, hnot⟩ := List.mem_filter.mp hru
    simp [hrole, hmembers ru hmem hrole] at hnot
  · exact triple_links my (.deleteRole appID (.id id)) (fun _ _ => rfl) (fun db hdb => hdb.1)
      fun db hdb => hdb.2

theorem triple_roleDelete_name {appID : Int} {name : String} (hc : readable name = true) :
    (roleDelete my appID 0 name).Triple
      (fun db => db.Consistent ∧ (name = "" ∨ ∀ r ∈ db.role.rows, r.appID = appID →
        (readLiteral name).map weight = some (weight r.name) →
          ∀ rr ∈ db.roleResource.rows, rr.roleID ≠ r.id))
      (fun _ => Db.Consistent) fun _ => Db.Consistent := by
  unfold roleDelete
  rw [if_neg (fun h => h rfl)]
  by_cases hname : name = ""
  · rw [if_neg (fun h => h hname)]
    exact triple_links my _ (fun _ _ => rfl) (fun db hdb => hdb.1) fun _ _ => trivial
  · rw [if_pos hname]
    refine Action.triple_bind (Q := fun _ db => db.Consistent ∧ ∀ r ∈ db.role.rows,
      r.appID = appID → (readLiteral name).map weight = some (weight r.name) → db.Unlinked r.id)
      (triple_exec my _ (fun _ _ => hc) ?_ fun db hdb => hdb.1) fun _ => ?_
    · rintro db ⟨hdb, hgrants⟩ n db' h
      have hdb' := consistent_denote hdb h trivial
      simp only [Write.denote] at h
      obtain ⟨v, hv, h⟩ := except_bind_ok h
      cases h
      refine ⟨hdb', fun r hr happ hn => ⟨fun ru hru hrole => ?_, ?_⟩⟩
      · -- the member is of the application of the role, since the tables were consistent
        obtain ⟨hmem, hnot⟩ := List.mem_filter.mp hru
        obtain ⟨r', hr', hid, happ'⟩ := (hdb.roleUser ru hmem).1
        obtain rfl : r' = r := db.role.eq_of_id hr' hr (hid.trans hrole)
        rw [literal_ok_iff.mp hv, Option.map_some, Option.some.injEq] at hn
        have hnamed : db.isRoleNamed appID v ru.roleID = true := by
          unfold Db.isRoleNamed
          rw [List.any_eq_true]
          exact ⟨r', hr', by simp [happ, hn, hrole]⟩
        simp [hnamed, ← happ', happ] at hnot
      · exact (hgrants.resolve_left hname) r hr happ hn
    · refine triple_links my (.deleteRole appID (.name name)) (fun _ _ => hc) (fun db hdb => hdb.1) ?_
      intro db hdb v hv r hr happ hn
      exact hdb.2 r hr happ (by rw [hv, Option.map_some, hn])

/-- Both statements of `ResourceDelete` together; the second is never refused. -/
theorem consistent_resourceDelete (hup : ∀ s, my.down s = none) (id : Int) {db : Db}
    (hdb : db.Consistent) : (resourceDelete my id db).2.Consistent := by
  have h₁ : exec my (.deleteResource id) db =
      (.ok 0, { db with resource := db.resource.delete fun r => r.id = id }) :=
    exec_of_denote (hup _) rfl
  unfold resourceDelete
  rw [Action.bind_ok h₁, exec_of_denote (w := .deleteGrants id) (hup _) rfl]
  refine hdb.of_sublinks (fun _ h => h) (fun rr hrr => List.mem_of_mem_filter hrr)
    (fun _ _ hr _ => hr) (fun _ _ hu => hu) fun rr hrr hs => ?_
  have hne : rr.resourceID ≠ id := by
    have := (List.mem_filter.mp hrr).2
    simpa using this
  rw [hasResource_iff] at hs ⊢
  exact hs.delete fun r _ hid => decide_eq_false fun heq => hne (hid.symm.trans heq)

end Programs

/-! ## Endpoints -/

/-- What a request has to meet for consistent tables to stay so. -/
def WriteEndpoint.Links (appID : Int) (q : Request) (db : Db) : WriteEndpoint → Prop
  | .userPUT => readable (q.text "name") ∧ readable (q.text "email")
  | .userPOST => clean [q.text "name", q.text "email"]
  | .rolePOST => clean [q.text "user", q.text "email", q.text "name", q.text "comments"]
  | .rolePUT => readable (q.text "name") ∧ readable (q.text "comments")
  | .roleDELETE =>
    if q.int "role_id" ≠ 0 then
      (∀ ru ∈ db.roleUser.rows, ru.roleID = q.int "role_id" → ru.appID = appID) ∧
        ∀ rr ∈ db.roleResource.rows, rr.roleID ≠ q.int "role_id"
    else
      readable (q.text "name") ∧ (q.text "name" = "" ∨ ∀ r ∈ db.role.rows, r.appID = appID →
        (readLiteral (q.text "name")).map weight = some (weight r.name) →
          ∀ rr ∈ db.roleResource.rows, rr.roleID ≠ r.id)
  | .roleUserPOST =>
    clean [q.text "name", q.text "email"] ∧
      (q.text "name" = "" ∨ q.text "email" = "" ∨ db.HasRole appID (q.int "role_id"))
  | .roleUserDELETE => readable (q.text "email")
  | .roleResourcePOST =>
    db.HasRole appID (q.int "role_id") ∧ db.HasResource appID (q.int "resource_id")
  | .roleResourceDELETE => True
  | .resourcePOST => clean [q.text "Name", q.text "Comments"]
  | .resourceDELETE => True

theorem consistent_exec {my : Mysql} {db : Db} {w : Write} (hdb : db.Consistent)
    (hclean : w.clean = true) (hw : w.Links db) : (exec my w db).2.Consistent :=
  (triple_links my w (P := fun db => db.Consistent ∧ w.Links db) (fun _ _ => hclean)
    (fun _ h => h.1) fun _ h => h.2).state ⟨hdb, hw⟩

theorem consistent_action {my : Mysql} (hup : ∀ s, my.down s = none) {q : Request} {appID : Int}
    {db : Db} {ep : WriteEndpoint} (hdb : db.Consistent) (h : ep.Links appID q db) :
    (ep.action my q appID db).2.Consistent := by
  cases ep with
  | userPUT => exact consistent_exec hdb (Bool.and_eq_true_iff.mpr h) trivial
  | userPOST => exact consistent_exec hdb h trivial
  | rolePOST => exact (triple_roleAdd my h).state hdb
  | rolePUT => exact consistent_exec hdb (Bool.and_eq_true_iff.mpr h) trivial
  | roleDELETE =>
    simp only [WriteEndpoint.Links] at h
    by_cases hid : q.int "role_id" = 0
    · rw [if_neg (not_not.mpr hid)] at h
      simp only [WriteEndpoint.action, hid]
      exact (triple_roleDelete_name my h.1).state ⟨hdb, h.2⟩
    · rw [if_pos hid] at h
      exact (triple_roleDelete_id my hid _).state ⟨hdb, h⟩
  | roleUserPOST => exact (triple_roleUserAdd my h.1).state ⟨hdb, h.2⟩
  | roleUserDELETE => exact consistent_exec hdb h trivial
  | roleResourcePOST => exact consistent_exec hdb rfl h
  | roleResourceDELETE => exact consistent_exec hdb rfl trivial
  | resourcePOST => exact consistent_exec hdb h trivial
  | resourceDELETE =>
    simp only [WriteEndpoint.action]
    cases parseInt (q.urlGet "id") with
    | none => exact hdb
    | some id => exact consistent_resourceDelete my hup id hdb

theorem withForm_db {q : Request} {k : Handler} {db : Db} (code : Int) (hk : (k db).2 = db) :
    (withForm q code k db).2 = db := by
  unfold withForm
  cases q.form.formErr with
  | some e => rfl
  | none => exact hk

theorem withToken_db {C : Crypto} {q : Request} {k : Int → Handler} {db : Db}
    (hk : ∀ appID, tokenID C q.token = some appID → (k appID db).2 = db) :
    (withToken C q k db).2 = db := by
  unfold withToken
  cases hp : parseToken C q.token with
  | ok appID => exact hk appID ((parseToken_ok_iff C q.token appID).mp hp)
  | err e => rfl
  | panic p => rfl

/-- Without a token that parses nothing is written. -/
theorem handler_noToken {C : Crypto} {q : Request} {ep : WriteEndpoint} (my : Mysql) (db : Db)
    (htok : tokenID C q.token = none) : (ep.handler C my q db).2 = db := by
  have htoken : ∀ k, (withToken C q k db).2 = db := by
    intro k
    refine withToken_db fun appID h => ?_
    rw [htok] at h
    cases h
  by_cases hep : ep = .resourceDELETE
  · rw [hep]
    exact htoken _
  · obtain ⟨code, code', good, heq⟩ := handler_eq hep
    rw [heq]
    exact withForm_db code (htoken _)

theorem read_db (C : Crypto) (my : Mysql) (ep : ReadEndpoint) (q : Request) (db : Db) :
    (ep.handler C my q db).2 = db := by
  cases ep with
  | userGET =>
    refine withForm_db _ ?_
    dsimp only
    cases parseToken C q.token with
    | _ => rfl
  | userResourceGET => exact withToken_db fun _ _ => rfl
  | _ => exact withForm_db _ (withToken_db fun _ _ => rfl)

/-! ## Runs -/

/-- The tables after a request. The endpoints of `app` and `user/info` write none of them. -/
def serve (C : Crypto) (my : Mysql) (db : Db) : Client.Endpoint × Request → Db
  | (.read ep, q) => (ep.handler C my q db).2
  | (.write ep, q) => (ep.handler C my q db).2
  | _ => db

/-- A request that writes, with a form and a token that parse, meets the condition of its
    endpoint. -/
def Linked (C : Crypto) (db : Db) : Client.Endpoint × Request → Prop
  | (.write ep, q) => ep.BadForm q ∨ ∀ appID, tokenID C q.token = some appID → ep.Links appID q db
  | _ => True

theorem consistent_serve (C : Crypto) {my : Mysql} (hup : ∀ s, my.down s = none) (db : Db)
    (v : Client.Endpoint × Request) (hdb : db.Consistent) (hv : Linked C db v) :
    (serve C my db v).Consistent := by
  obtain ⟨ep, q⟩ := v
  cases ep with
  | read ep =>
    simp only [serve, read_db]
    exact hdb
  | write ep =>
    simp only [serve]
    by_cases hform : ep.BadForm q
    · rw [handler_badForm my db hform]
      exact hdb
    · cases htok : tokenID C q.token with
      | none =>
        rw [handler_noToken my db htok]
        exact hdb
      | some appID =>
        rw [handler_db my db htok hform]
        exact consistent_action hup hdb (hv.resolve_left hform appID htok)
  | _ => exact hdb

/-- From empty tables, with a MySQL that never fails, every state of a run whose requests meet
    their conditions is consistent. -/
theorem consistent_of_linked (C : Crypto) (my : Mysql) (hup : ∀ s, my.down s = none) (db : Db)
    (hempty : db.Empty) (requests : List (Client.Endpoint × Request))
    (hrun : EachStep (serve C my) (Linked C) db requests) (n : Nat) :
    ((requests.take n).foldl (serve C my) db).Consistent :=
  inv_of_eachStep (consistent_serve C hup) requests db hempty.consistent hrun n

end Collated

/-- A request of application 1 with this form. -/
def ask (C : Crypto) (ps : List (String × String)) : Request := ⟨⟨none, ps⟩, ps, tokenOf C [0x02]⟩

theorem tokenID_ask (C : Crypto) (ps : List (String × String)) :
    tokenID C (ask C ps).token = some 1 :=
  tokenID_tokenOf C [0x02] (by decide) (by decide)

section Examples

attribute [local instance] asciiCi

theorem serve_ask (C : Crypto) (my : Mysql) (db : Db) (ep : WriteEndpoint)
    (ps : List (String × String)) :
    serve C my db (.write ep, ask C ps) = (ep.action my (ask C ps) 1 db).2 :=
  handler_db my db (tokenID_ask C ps) fun h => h.2 rfl

/-- A role, a resource and a grant between them. -/
def grantRun (C : Crypto) : List (Client.Endpoint × Request) :=
  [(.write .rolePOST, ask C [("name", "r"), ("user", "u"), ("email", "e"), ("comments", "c")]),
    (.write .resourcePOST, ask C [("Name", "s"), ("Comments", "c")]),
    (.write .roleResourcePOST, ask C [("role_id", "1"), ("resource_id", "1")])]

theorem action_role (C : Crypto) (my : Mysql) :
    WriteEndpoint.rolePOST.action my
      (ask C [("name", "r"), ("user", "u"), ("email", "e"), ("comments", "c")]) 1 =
      roleAdd my 1 "r" "u" "e" "c" := by
  simp [WriteEndpoint.action, ask]

theorem action_resource (C : Crypto) (my : Mysql) :
    WriteEndpoint.resourcePOST.action my (ask C [("Name", "s"), ("Comments", "c")]) 1 =
      resourceAdd my 1 "s" "c" := by
  simp [WriteEndpoint.action, ask]

theorem consistent_of_linked_grantRun : ∃ C my,
    EachStep (serve C my) (Linked C) default (grantRun C) ∧
      ((grantRun C).foldl (serve C my) default).Consistent := by
  have hrun : EachStep (serve default (.steady default)) (Linked default) default
      (grantRun default) := by
    refine ⟨.inr fun appID h => ?_, .inr fun appID h => ?_, .inr fun appID h => ?_, trivial⟩
    · have hc : clean ["u", "e", "r", "c"] = true := by decide
      simpa [WriteEndpoint.Links, ask] using hc
    · have hc : clean ["s", "c"] = true := by decide
      simpa [WriteEndpoint.Links, ask] using hc
    · rw [tokenID_ask] at h
      cases h
      rw [serve_ask, serve_ask, action_role, action_resource]
      exact ⟨⟨_, List.mem_singleton_self _, rfl, rfl⟩, ⟨_, List.mem_singleton_self _, rfl, rfl⟩⟩
  refine ⟨default, .steady default, hrun, ?_⟩
  exact consistent_of_linked _ _ (fun _ => rfl) default ⟨rfl, rfl, rfl, rfl, rfl⟩ _ hrun 3

/-- After a grant the role is deleted, and the grant stays. -/
theorem grant_dangles : ¬ ∃ C : Crypto,
    ((grantRun C ++ [(Client.Endpoint.write .roleDELETE, ask C [("role_id", "1")])]).foldl
      (serve C (.steady default)) default).Consistent := by
  rintro ⟨C, h⟩
  have hgrant : ∀ my, WriteEndpoint.roleResourcePOST.action my
      (ask C [("role_id", "1"), ("resource_id", "1")]) 1 = roleResourceAdd my 1 1 1 := by
    simp [WriteEndpoint.action, ask]
  have hdelete : ∀ my, WriteEndpoint.roleDELETE.action my (ask C [("role_id", "1")]) 1 =
      roleDelete my 1 1 "" := by
    simp [WriteEndpoint.action, ask]
  simp only [grantRun, List.cons_append, List.nil_append, List.foldl_cons, List.foldl_nil,
    serve_ask, action_role, action_resource, hgrant, hdelete] at h
  have hrr := (h.roleResource ⟨1, 1, 1, 1, "", ""⟩ (List.mem_singleton_self _)).1
  obtain ⟨r, hr, -⟩ := hrr
  exact absurd hr List.not_mem_nil

end Examples

end Doodle.Rbac
