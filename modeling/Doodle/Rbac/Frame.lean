/-
  What a write of one application does to the rows of the others.

  `writeIsolated_iff`: a request to a writing endpoint, with the token of an application, leaves
  every row of every other application alone exactly when `WriteSafe` holds: the texts it splices
  are read as meant, and the two deletes that do not name the application (`role` DELETE by id
  and `resource` DELETE) meet no row of another application.
-/
import Doodle.Rbac.Server

namespace Doodle.Rbac

open Doodle.Lib Doodle.Util Doodle.Go

/-! ## Single statements -/

theorem mem_delete {R K : Type} {σ : Schema R K} (t : Table σ) (p : R → Bool) (r : R)
    (hr : r ∈ t.rows → p r = false) : r ∈ (t.delete p).rows ↔ r ∈ t.rows := by
  show r ∈ t.rows.filter _ ↔ _
  rw [List.mem_filter]
  exact and_iff_left_of_imp fun h => by rw [hr h]; rfl

theorem update_of_unique {R K : Type} [DecidableEq K] {σ : Schema R K} {o : Option (Table σ)}
    {β : Type} {f : Table σ → β} {r : β} (h : (unique o >>= fun t => pure (f t)) = .ok r) :
    ∃ t, o = some t ∧ r = f t := by
  cases o with
  | none => cases h
  | some t =>
    cases h
    exact ⟨t, rfl, rfl⟩

section Collated

variable [Collating]

theorem Db.Agree.trans {p : Int → Prop} {db db' db'' : Db} (h : Agree p db db')
    (h' : Agree p db' db'') : Agree p db db'' where
  role r hr := (h.role r hr).trans (h'.role r hr)
  resource r hr := (h.resource r hr).trans (h'.resource r hr)
  user u hu := (h.user u hu).trans (h'.user u hu)
  roleUser r hr := (h.roleUser r hr).trans (h'.roleUser r hr)
  roleResource r hr := (h.roleResource r hr).trans (h'.roleResource r hr)

/-- The statement writes rows of the application only. -/
def Write.Stays (appID : Int) (db : Db) : Write → Prop
  | .addUser app _ _ => app = appID
  | .addRole app _ _ _ => app = appID
  | .addResource app _ _ => app = appID
  | .addRoleUser app _ _ => app = appID
  | .addRoleResource app _ _ => app = appID
  | .updateRole _ app _ _ => app = appID
  | .updateUser _ app _ _ => app = appID
  | .deleteMembers app _ => app = appID
  | .deleteRole _ (.id n) => ∀ r ∈ db.role.rows, r.id = n → r.appID = appID
  | .deleteRole app (.name _) => app = appID
  | .deleteMember app _ _ => app = appID
  | .deleteGrant app _ _ => app = appID
  | .deleteResource id => ∀ s ∈ db.resource.rows, s.id = id → s.appID = appID
  | .deleteGrants resID => ∀ r ∈ db.roleResource.rows, r.resourceID = resID → r.appID = appID

/-- A statement that stays in its application changes no row of another. -/
theorem agree_denote {appID : Int} {now : String} {db db' : Db} {w : Write} {n : Int}
    (hw : w.Stays appID db) (h : w.denote now db = .ok (n, db')) :
    db.Agree (· ≠ appID) db' := by
  have hrefl := Db.Agree.refl (· ≠ appID) db
  cases w with
  | addUser app name email =>
    obtain rfl : app = appID := hw
    obtain ⟨a, b, -, -, hr⟩ := quoted_pair_ok (by simpa only [Write.denote] using h)
    cases hr
    exact { hrefl with
      user := fun u hu => (Table.mem_upsert _ _ (·.1 ≠ app) (fun hne => hne rfl) u hu).symm }
  | addRole app name userID comments =>
    obtain rfl : app = appID := hw
    obtain ⟨a, b, -, -, hr⟩ := quoted_pair_ok (by simpa only [Write.denote] using h)
    cases hr
    exact { hrefl with
      role := fun u hu => (Table.mem_upsert _ _ (·.1 ≠ app) (fun hne => hne rfl) u hu).symm }
  | addResource app name comments =>
    obtain rfl : app = appID := hw
    obtain ⟨a, b, -, -, hr⟩ := quoted_pair_ok (by simpa only [Write.denote] using h)
    cases hr
    exact { hrefl with
      resource := fun u hu => (Table.mem_upsert _ _ (·.1 ≠ app) (fun hne => hne rfl) u hu).symm }
  | addRoleUser app roleID userID =>
    obtain rfl : app = appID := hw
    cases h
    exact { hrefl with
      roleUser := fun u hu => (Table.mem_upsert _ _ (·.1 ≠ app) (fun hne => hne rfl) u hu).symm }
  | addRoleResource app roleID resourceID =>
    obtain rfl : app = appID := hw
    cases h
    exact { hrefl with
      roleResource := fun u hu =>
        (Table.mem_upsert _ _ (·.1 ≠ app) (fun hne => hne rfl) u hu).symm }
  | updateRole id app name comments =>
    simp only [Write.denote] at h
    obtain ⟨a, -, h⟩ := except_bind_ok h
    obtain ⟨b, -, h⟩ := except_bind_ok h
    obtain ⟨t, ht, hr⟩ := update_of_unique h
    cases hr
    have hp : ∀ r : Role, (decide (r.id = id) && decide (r.appID = app)) = true →
        r.appID = appID := by
      intro r hr
      simp only [Bool.and_eq_true, decide_eq_true_eq] at hr
      exact hr.2.trans hw
    exact { hrefl with
      role := fun r hr => (Table.mem_update ht (·.appID ≠ appID) (fun r hr hne => hne (hp r hr))
        (fun r hr hne => hne (hp r hr)) r hr).symm }
  | updateUser id app name email =>
    simp only [Write.denote] at h
    obtain ⟨a, -, h⟩ := except_bind_ok h
    obtain ⟨b, -, h⟩ := except_bind_ok h
    obtain ⟨t, ht, hr⟩ := update_of_unique h
    cases hr
    have hp : ∀ r : User, (decide (r.id = id) && decide (r.appID = app)) = true →
        r.appID = appID := by
      intro r hr
      simp only [Bool.and_eq_true, decide_eq_true_eq] at hr
      exact hr.2.trans hw
    exact { hrefl with
      user := fun r hr => (Table.mem_update ht (·.appID ≠ appID) (fun r hr hne => hne (hp r hr))
        (fun r hr hne => hne (hp r hr)) r hr).symm }
  | deleteMembers app role =>
    obtain rfl : app = appID := hw
    rcases role with _ | ⟨m⟩ | ⟨s⟩
    · cases h
    · cases h
      exact { hrefl with
        roleUser := fun r hr => (mem_delete _ _ r fun _ => by simp [hr]).symm }
    · simp only [Write.denote] at h
      obtain ⟨a, -, h⟩ := except_bind_ok h
      cases h
      exact { hrefl with
        roleUser := fun r hr => (mem_delete _ _ r fun _ => by simp [hr]).symm }
  | deleteRole app role =>
    rcases role with ⟨m⟩ | ⟨s⟩
    · cases h
      exact { hrefl with
        role := fun r hr => (mem_delete _ _ r fun hmem =>
          decide_eq_false fun hid => hr (hw r hmem hid)).symm }
    · obtain rfl : app = appID := hw
      simp only [Write.denote] at h
      obtain ⟨a, -, h⟩ := except_bind_ok h
      cases h
      exact { hrefl with
        role := fun r hr => (mem_delete _ _ r fun _ => by simp [hr]).symm }
  | deleteMember app roleID email =>
    obtain rfl : app = appID := hw
    simp only [Write.denote] at h
    obtain ⟨a, -, h⟩ := except_bind_ok h
    cases h
    exact { hrefl with
      roleUser := fun r hr => (mem_delete _ _ r fun _ => by simp [hr]).symm }
  | deleteGrant app roleID resourceID =>
    obtain rfl : app = appID := hw
    cases h
    exact { hrefl with
      roleResource := fun r hr => (mem_delete _ _ r fun _ => by simp [hr]).symm }
  | deleteResource id =>
    cases h
    exact { hrefl with
      resource := fun r hr => (mem_delete _ _ r fun hmem =>
        decide_eq_false fun hid => hr (hw r hmem hid)).symm }
  | deleteGrants resourceID =>
    cases h
    exact { hrefl with
      roleResource := fun r hr => (mem_delete _ _ r fun hmem =>
        decide_eq_false fun hid => hr (hw r hmem hid)).symm }

/-- The rule of invariants for a clean statement that stays in its application. -/
theorem ensures_agree {appID : Int} {db₀ : Db} (my : Mysql) {w : Write} {Q : Int → Prop}
    (hclean : w.clean = true) (hstays : ∀ db, db₀.Agree (· ≠ appID) db → w.Stays appID db)
    (hQ : ∀ db n db', w.denote my.now db = .ok (n, db') → Q n) :
    (exec my w).Ensures (db₀.Agree (· ≠ appID)) Q :=
  ensures_exec my w hclean fun db hdb n db' h =>
    ⟨hdb.trans (agree_denote (hstays db hdb) h), hQ db n db' h⟩

/-- Some database differs in a row of another application. -/
theorem exists_not_agree (appID : Int) (db : Db) : ∃ bad, ¬ db.Agree (· ≠ appID) bad := by
  by_cases h : ∃ r ∈ db.role.rows, r.appID ≠ appID
  · obtain ⟨r, hr, hne⟩ := h
    refine ⟨default, fun hagree => ?_⟩
    exact absurd ((hagree.role r hne).mp hr) List.not_mem_nil
  · refine ⟨{ (default : Db) with
      role := (default : Table roleSchema).upsert (roleEntry "" (appID + 1) "" 0 "") }, ?_⟩
    intro hagree
    have hne : appID + 1 ≠ appID := by omega
    have hmem := (hagree.role ⟨1, appID + 1, "", 0, "", "", ""⟩ hne).mpr (List.mem_singleton.mpr rfl)
    exact h ⟨_, hmem, hne⟩

/-! ## Endpoints -/

/-- What an endpoint does to the database, once its form and its token are decoded. -/
def WriteEndpoint.action (my : Mysql) (q : Request) (appID : Int) :
    WriteEndpoint → Action Fault Db Int
  | .userPUT => userUpdate my appID (q.int "user_id") (q.text "name") (q.text "email")
  | .userPOST => userAdd my appID (q.text "name") (q.text "email")
  | .rolePOST => roleAdd my appID (q.text "name") (q.text "user") (q.text "email") (q.text "comments")
  | .rolePUT => roleUpdate my appID (q.int "role_id") (q.text "name") (q.text "comments")
  | .roleDELETE => roleDelete my appID (q.int "role_id") (q.text "name")
  | .roleUserPOST => roleUserAdd my appID (q.int "role_id") (q.text "name") (q.text "email")
  | .roleUserDELETE => roleUserDelete my appID (q.int "role_id") (q.text "email")
  | .roleResourcePOST => roleResourceAdd my appID (q.int "role_id") (q.int "resource_id")
  | .roleResourceDELETE => roleResourceDelete my appID (q.int "role_id") (q.int "resource_id")
  | .resourcePOST => resourceAdd my appID (q.text "Name") (q.text "Comments")
  | .resourceDELETE =>
    match parseInt (q.urlGet "id") with
    | none => pure 0
    | some id => resourceDelete my id

/-- The endpoint decodes a form, and the form does not parse. -/
def WriteEndpoint.BadForm (q : Request) (ep : WriteEndpoint) : Prop :=
  ep ≠ .resourceDELETE ∧ q.form.formErr ≠ none

theorem written_db (x : Action Fault Db Int) (code : Int) (good : Int → Resp) (db : Db) :
    (written x code good db).2 = (x db).2 := by
  unfold written
  rcases h : x db with ⟨e | n, db'⟩
  · rw [Action.onErr_error h]
  · rw [Action.onErr_ok h]

/-- All endpoints but `resource` DELETE have one shape. -/
theorem handler_eq {ep : WriteEndpoint} (h : ep ≠ .resourceDELETE) :
    ∃ code code' good, ∀ C my q, ep.handler C my q =
      withForm q code (withToken C q fun appID => written (ep.action my q appID) code' good) := by
  cases ep with
  | resourceDELETE => exact absurd rfl h
  | _ => exact ⟨_, _, _, fun C my q => rfl⟩

theorem withToken_of_tokenID {C : Crypto} {q : Request} {appID : Int}
    (h : tokenID C q.token = some appID) (k : Int → Handler) : withToken C q k = k appID := by
  simp only [withToken, (parseToken_ok_iff C q.token appID).mpr h]

theorem handler_db {C : Crypto} {q : Request} {appID : Int} {ep : WriteEndpoint} (my : Mysql)
    (db : Db) (htok : tokenID C q.token = some appID) (hform : ¬ ep.BadForm q) :
    (ep.handler C my q db).2 = (ep.action my q appID db).2 := by
  by_cases hep : ep = .resourceDELETE
  · rw [hep]
    show (withToken C q _ db).2 = _
    rw [withToken_of_tokenID htok]
    show _ = ((match parseInt (q.urlGet "id") with
      | none => pure 0
      | some id => resourceDelete my id : Action Fault Db Int) db).2
    cases parseInt (q.urlGet "id") with
    | none => rfl
    | some id => exact written_db _ _ _ _
  · obtain ⟨code, code', good, heq⟩ := handler_eq hep
    have hnone : q.form.formErr = none := by
      by_contra hne
      exact hform ⟨hep, hne⟩
    rw [heq, withForm, hnone, withToken_of_tokenID htok]
    exact written_db _ _ _ _

theorem handler_badForm {C : Crypto} {q : Request} {ep : WriteEndpoint} (my : Mysql) (db : Db)
    (hform : ep.BadForm q) : (ep.handler C my q db).2 = db := by
  obtain ⟨code, code', good, heq⟩ := handler_eq hform.1
  obtain ⟨e, he⟩ := Option.ne_none_iff_exists'.mp hform.2
  rw [heq, withForm, he]
  rfl

/-- What a request has to meet for the rows of other applications to stay. -/
def WriteSafe (appID : Int) (q : Request) (db : Db) : WriteEndpoint → Prop
  | .userPUT => readable (q.text "name") ∧ readable (q.text "email")
  | .userPOST => clean [q.text "name", q.text "email"]
  | .rolePOST => clean [q.text "user", q.text "email", q.text "name", q.text "comments"]
  | .rolePUT => readable (q.text "name") ∧ readable (q.text "comments")
  | .roleDELETE =>
    if q.int "role_id" ≠ 0 then
      ∀ r ∈ db.role.rows, r.id = q.int "role_id" → r.appID = appID
    else readable (q.text "name")
  | .roleUserPOST => clean [q.text "name", q.text "email"]
  | .roleUserDELETE => readable (q.text "email")
  | .roleResourcePOST => True
  | .roleResourceDELETE => True
  | .resourcePOST => clean [q.text "Name", q.text "Comments"]
  | .resourceDELETE => ∀ id, parseInt (q.urlGet "id") = some id →
    (∀ s ∈ db.resource.rows, s.id = id → s.appID = appID) ∧
    ∀ r ∈ db.roleResource.rows, r.resourceID = id → r.appID = appID

/-- A program leaves the rows of other applications alone, whatever MySQL does. -/
def Keeps (appID : Int) (db : Db) (x : Mysql → Action Fault Db Int) : Prop :=
  ∀ my, db.Agree (· ≠ appID) (x my db).2

theorem keeps_of_ensures {appID : Int} {db : Db} {x : Mysql → Action Fault Db Int} {Q : Int → Prop}
    (h : ∀ my, (x my).Ensures (db.Agree (· ≠ appID)) Q) : Keeps appID db x :=
  fun my => (h my db (Db.Agree.refl _ db)).1

/-- A program that ends in a stray statement can leave any database. -/
theorem not_keeps {appID : Int} {db : Db} {x : Mysql → Action Fault Db Int}
    (h : ∀ bad, (x (.steady bad) db).2 = bad) : ¬ Keeps appID db x := by
  intro hk
  obtain ⟨bad, hbad⟩ := exists_not_agree appID db
  have := hk (.steady bad)
  rw [h bad] at this
  exact hbad this

theorem exec_astray {w : Write} (hc : w.clean = false) (bad db : Db) :
    exec (.steady bad) w db = (.error .injected, bad) :=
  exec_of_not_clean rfl hc db

/-- One statement that stays in its application. -/
theorem keeps_exec_iff (appID : Int) (db : Db) (w : Write) (hstays : ∀ db, w.Stays appID db) :
    Keeps appID db (fun my => exec my w) ↔ w.clean = true := by
  constructor
  · intro h
    by_contra hc
    exact not_keeps (fun bad => by rw [exec_astray (Bool.eq_false_iff.mpr hc)]) h
  · intro hc
    exact keeps_of_ensures fun my =>
      ensures_agree my hc (fun db _ => hstays db) (Q := fun _ => True) fun _ _ _ _ => trivial

theorem ensures_roleUserAdd_agree {appID : Int} {db₀ : Db} (my : Mysql) (roleID : Int)
    {name email : String} (hc : clean [name, email] = true) :
    (roleUserAdd my appID roleID name email).Ensures (db₀.Agree (· ≠ appID)) fun _ => True := by
  refine Action.ensures_bind (Q := fun _ => True)
    (ensures_agree my hc (fun _ _ => rfl) fun _ _ _ _ => trivial) fun uid _ => ?_
  exact ensures_agree my rfl (fun _ _ => rfl) fun _ _ _ _ => trivial

theorem keeps_roleUserAdd_iff (appID : Int) (db : Db) (roleID : Int) (name email : String) :
    Keeps appID db (fun my => roleUserAdd my appID roleID name email) ↔
      clean [name, email] = true := by
  constructor
  · intro h
    by_contra hc
    refine not_keeps (fun bad => ?_) h
    have hx : userAdd (.steady bad) appID name email db = _ :=
      exec_astray (w := .addUser appID name email) (Bool.eq_false_iff.mpr hc) bad db
    unfold roleUserAdd
    rw [Action.bind_error hx]
  · exact fun hc => keeps_of_ensures fun my => ensures_roleUserAdd_agree my roleID hc

theorem keeps_roleAdd_iff (appID : Int) (db : Db) (name user email comments : String) :
    Keeps appID db (fun my => roleAdd my appID name user email comments) ↔
      clean [user, email, name, comments] = true := by
  constructor
  · intro h
    by_contra hc
    refine not_keeps (fun bad => ?_) h
    have hfalse := Bool.eq_false_iff.mpr hc
    have hfirst : clean [user, email] = false →
        (roleAdd (.steady bad) appID name user email comments db).2 = bad := by
      intro hc
      have hx : userAdd (.steady bad) appID user email db = _ :=
        exec_astray (w := .addUser appID user email) hc bad db
      unfold roleAdd
      rw [Action.bind_error hx]
    cases hu : quoted user with
    | error f => exact hfirst ((clean_cons_of_error hu _ _).trans hfalse)
    | ok u =>
      rw [clean_cons_of_quoted hu] at hfalse hfirst
      cases hv : quoted email with
      | error f => exact hfirst ((clean_cons_of_error hv _ _).trans hfalse)
      | ok v =>
        rw [clean_cons_of_quoted hv] at hfalse
        have hx : userAdd (.steady bad) appID user email db = (.ok _, _) :=
          exec_of_denote rfl (by simp only [Write.denote, hu, hv]; rfl)
        have hy : ∀ db' uid, exec (.steady bad) (.addRole appID name uid comments) db' =
            _ := fun db' uid => exec_astray (w := .addRole appID name uid comments) hfalse bad db'
        unfold roleAdd
        rw [Action.bind_ok hx, Action.bind_error (hy _ _)]
  · intro hc
    refine keeps_of_ensures (Q := fun _ => True) fun my => ?_
    have hfirst : clean [user, email] = true :=
      clean_append (l := [user, email]) (m := [name, comments]) hc
    -- a user that has been added had literals for its texts, so the rest is clean
    refine Action.ensures_bind (Q := fun _ => clean [name, comments] = true)
      (ensures_agree my hfirst (fun _ _ => rfl) fun db n db' h => ?_) fun uid hrest => ?_
    · obtain ⟨u, v, hu, hv, -⟩ := quoted_pair_ok (by simpa only [Write.denote] using h)
      rwa [clean_cons_of_quoted hu, clean_cons_of_quoted hv] at hc
    · refine Action.ensures_bind (Q := fun _ => True)
        (ensures_agree my hrest (fun _ _ => rfl) fun _ _ _ _ => trivial) fun rid _ => ?_
      exact Action.ensures_bind (ensures_roleUserAdd_agree my rid hfirst) fun _ _ =>
        Action.ensures_pure trivial

theorem keeps_roleDelete_id_iff (appID : Int) (db : Db) (id : Int) (name : String) (hid : id ≠ 0) :
    Keeps appID db (fun my => roleDelete my appID id name) ↔
      ∀ r ∈ db.role.rows, r.id = id → r.appID = appID := by
  constructor
  · intro h r hr hrid
    by_contra hne
    have hx : exec (.steady default) (.deleteMembers appID (some (.id id))) db = _ :=
      exec_of_denote rfl rfl
    have hy : ∀ db', exec (.steady default) (.deleteRole appID (.id id)) db' = _ :=
      fun db' => exec_of_denote rfl rfl
    have hk : db.Agree (· ≠ appID) (roleDelete _ appID id name db).2 :=
      h (.steady default)
    unfold roleDelete at hk
    rw [if_pos hid, Action.bind_ok hx, hy] at hk
    have hmem : r ∈ db.role.rows.filter fun r => !decide (r.id = id) := (hk.role r hne).mp hr
    simp [hrid] at hmem
  · intro h
    refine keeps_of_ensures (Q := fun _ => True) fun my => ?_
    unfold roleDelete
    rw [if_pos hid]
    refine Action.ensures_bind (Q := fun _ => True)
      (ensures_agree my rfl (fun _ _ => rfl) fun _ _ _ _ => trivial) fun _ _ => ?_
    refine ensures_agree my rfl (fun db' hagree r hr hrid => ?_) fun _ _ _ _ => trivial
    by_contra hne
    exact hne (h r ((hagree.role r hne).mpr hr) hrid)

theorem keeps_roleDelete_name_iff (appID : Int) (db : Db) (name : String) :
    Keeps appID db (fun my => roleDelete my appID 0 name) ↔ readable name = true := by
  by_cases hname : name = ""
  · subst hname
    refine iff_of_true ?_ (by decide)
    exact (keeps_exec_iff appID db (.deleteMembers appID none) fun _ => rfl).mpr rfl
  · constructor
    · intro h
      by_contra hc
      refine not_keeps (fun bad => ?_) h
      have hx := exec_astray (w := .deleteMembers appID (some (.name name)))
        (Bool.eq_false_iff.mpr hc) bad db
      unfold roleDelete
      rw [if_neg (by simp), if_pos hname, Action.bind_error hx]
    · intro hc
      refine keeps_of_ensures (Q := fun _ => True) fun my => ?_
      unfold roleDelete
      rw [if_neg (by simp), if_pos hname]
      exact Action.ensures_bind (Q := fun _ => True)
        (ensures_agree my hc (fun _ _ => rfl) fun _ _ _ _ => trivial)
        fun _ _ => ensures_agree my hc (fun _ _ => rfl) fun _ _ _ _ => trivial

theorem keeps_resourceDelete_iff (appID : Int) (db : Db) (id : Int) :
    Keeps appID db (fun my => resourceDelete my id) ↔
      (∀ s ∈ db.resource.rows, s.id = id → s.appID = appID) ∧
      ∀ r ∈ db.roleResource.rows, r.resourceID = id → r.appID = appID := by
  constructor
  · intro h
    have hx : exec (.steady default) (.deleteResource id) db = _ :=
      exec_of_denote rfl rfl
    have hy : ∀ db', exec (.steady default) (.deleteGrants id) db' = _ :=
      fun db' => exec_of_denote rfl rfl
    have hk : db.Agree (· ≠ appID) (resourceDelete _ id db).2 := h (.steady default)
    unfold resourceDelete at hk
    rw [Action.bind_ok hx, hy] at hk
    constructor
    · intro s hs hid
      by_contra hne
      have hmem : s ∈ db.resource.rows.filter fun s => !decide (s.id = id) :=
        (hk.resource s hne).mp hs
      simp [hid] at hmem
    · intro r hr hid
      by_contra hne
      have hmem : r ∈ db.roleResource.rows.filter fun r => !decide (r.resourceID = id) :=
        (hk.roleResource r hne).mp hr
      simp [hid] at hmem
  · rintro ⟨hres, hgrants⟩
    refine keeps_of_ensures (Q := fun _ => True) fun my => ?_
    refine Action.ensures_bind (Q := fun _ => True) ?_ fun _ _ => ?_
    · refine ensures_agree my rfl (fun db' hagree s hs hid => ?_) fun _ _ _ _ => trivial
      by_contra hne
      exact hne (hres s ((hagree.resource s hne).mpr hs) hid)
    · refine ensures_agree my rfl (fun db' hagree r hr hid => ?_) fun _ _ _ _ => trivial
      by_contra hne
      exact hne (hgrants r ((hagree.roleResource r hne).mpr hr) hid)

theorem keeps_action_iff (appID : Int) (q : Request) (db : Db) (ep : WriteEndpoint) :
    Keeps appID db (fun my => ep.action my q appID) ↔ WriteSafe appID q db ep := by
  cases ep with
  | userPUT =>
    have h := keeps_exec_iff appID db
      (.updateUser (q.int "user_id") appID (q.text "name") (q.text "email")) fun _ => rfl
    rw [Write.clean, Bool.and_eq_true] at h
    exact h
  | userPOST => exact keeps_exec_iff appID db _ fun _ => rfl
  | rolePOST => exact keeps_roleAdd_iff appID db _ _ _ _
  | rolePUT =>
    have h := keeps_exec_iff appID db
      (.updateRole (q.int "role_id") appID (q.text "name") (q.text "comments")) fun _ => rfl
    rw [Write.clean, Bool.and_eq_true] at h
    exact h
  | roleDELETE =>
    unfold WriteSafe
    by_cases hid : q.int "role_id" = 0
    · rw [if_neg (not_not.mpr hid)]
      have h := keeps_roleDelete_name_iff appID db (q.text "name")
      rw [← hid] at h
      exact h
    · rw [if_pos hid]
      exact keeps_roleDelete_id_iff appID db _ _ hid
  | roleUserPOST => exact keeps_roleUserAdd_iff appID db _ _ _
  | roleUserDELETE => exact keeps_exec_iff appID db _ fun _ => rfl
  | roleResourcePOST =>
    have h := (keeps_exec_iff appID db
      (.addRoleResource appID (q.int "role_id") (q.int "resource_id")) fun _ => rfl).mpr rfl
    exact iff_of_true h trivial
  | roleResourceDELETE =>
    have h := (keeps_exec_iff appID db
      (.deleteGrant appID (q.int "role_id") (q.int "resource_id")) fun _ => rfl).mpr rfl
    exact iff_of_true h trivial
  | resourcePOST => exact keeps_exec_iff appID db _ fun _ => rfl
  | resourceDELETE =>
    unfold WriteEndpoint.action WriteSafe
    cases parseInt (q.urlGet "id") with
    | none => exact iff_of_true (fun my => Db.Agree.refl _ _) fun id h => by cases h
    | some id =>
      refine (keeps_resourceDelete_iff appID db id).trans ?_
      constructor
      · intro h id' hid
        cases hid
        exact h
      · exact fun h => h id rfl

/-- A request with the token of an application leaves the rows of the others alone. -/
def WriteIsolated (C : Crypto) (ep : WriteEndpoint) (q : Request) (db : Db) : Prop :=
  ∀ appID, tokenID C q.token = some appID → ∀ my, db.Agree (· ≠ appID) (ep.handler C my q db).2

/-- Writes are isolated exactly when the form does not parse, or the request is safe: its texts
    are read as meant, and an id it deletes by names no row of another application. -/
theorem writeIsolated_iff (C : Crypto) (ep : WriteEndpoint) (q : Request) (db : Db) :
    WriteIsolated C ep q db ↔ ∀ appID, tokenID C q.token = some appID →
      ep.BadForm q ∨ WriteSafe appID q db ep := by
  refine forall_congr' fun appID => forall_congr' fun htok => ?_
  by_cases hform : ep.BadForm q
  · refine iff_of_true (fun my => ?_) (.inl hform)
    rw [handler_badForm my db hform]
    exact Db.Agree.refl _ _
  · rw [or_iff_right hform, ← keeps_action_iff]
    refine forall_congr' fun my => ?_
    rw [handler_db my db htok hform]

/-- A role of application 2, with id 1. -/
def roleOfTwo : Db :=
  { (default : Db) with
    role := (default : Table roleSchema).upsert (roleEntry "" 2 "ops" 7 "operators") }

/-- A `role` DELETE of id 1. -/
def deleteRoleOne (token : String) : Request := ⟨⟨none, [("role_id", "1")]⟩, [], token⟩

end Collated

/-- Application 1 deletes the role of application 2, with every collation and every cipher. -/
theorem roleDELETE_crosses : ¬ ∃ (_ : Collating) (C : Crypto),
    WriteIsolated C .roleDELETE (deleteRoleOne (tokenOf C [0x02])) roleOfTwo := by
  rintro ⟨_, C, h⟩
  have htok : tokenID C (tokenOf C [0x02]) = some 1 :=
    tokenID_tokenOf C [0x02] (by decide) (by decide)
  have hkeeps : Keeps 1 roleOfTwo (fun my => roleDelete my 1 1 "") := by
    intro my
    have hmy := h 1 htok my
    rw [handler_db my roleOfTwo htok (fun hbad => hbad.2 rfl)] at hmy
    have hid : (deleteRoleOne (tokenOf C [0x02])).int "role_id" = 1 := by
      show ((Util.Request.mk none [("role_id", "1")]).int? "role_id").getD 0 = 1
      decide
    have hname : (deleteRoleOne (tokenOf C [0x02])).text "name" = "" := by
      show (Util.Request.mk none [("role_id", "1")]).formValue "name" = ""
      decide
    unfold WriteEndpoint.action at hmy
    rwa [hid, hname] at hmy
  have happ := (keeps_roleDelete_id_iff 1 roleOfTwo 1 "" (by decide)).mp hkeeps
    ⟨1, 2, "ops", 7, "operators", "", ""⟩ (List.mem_singleton.mpr rfl) rfl
  exact absurd happ (by decide)

end Doodle.Rbac
