/-
  The reading endpoints, one by one: which requests are isolated, and databases that tell two
  applications apart for the others.

  A database that leaks has rows of the next applications (`appID + 1`, `appID + 2`, …), as many
  as the page of the request skips and one more.
-/
import Doodle.Rbac.Read

namespace Doodle.Rbac

open Doodle.Lib Doodle.Util Doodle.Go

/-! ## Answers, texts and lists -/

/-- The end of `user` GET and `resource` GET. -/
def orNotFound : Int × List Row → Resp
  | (total, rs) => if total = 0 ∨ rs = [] then notFound else .data rs

/-- The end of `role` GET. -/
def pageResp : Int × List Row → Resp
  | (total, rs) => .page total rs

theorem answer_map {α β : Type} (x : Except Fault α) (f : α → β) (code : Int) (good : β → Resp) :
    answer (x.map f) code good = answer x code (good ∘ f) := by
  cases x <;> rfl

theorem shows_orNotFound : Shows orNotFound where
  rows total rows ht hr := by
    show (if total = 0 ∨ rows = [] then notFound else Resp.data rows).rows = rows
    rw [if_neg (not_or.mpr ⟨ht, hr⟩)]
    rfl
  none total := by
    show (if total = 0 ∨ ([] : List Row) = [] then notFound else Resp.data []).rows = []
    rw [if_pos (.inr rfl)]
    rfl
  fault := by
    rintro ⟨total, rows⟩ code f h
    unfold orNotFound at h
    dsimp only at h
    split at h <;> cases h

theorem shows_pageResp : Shows pageResp where
  rows _ _ _ _ := rfl
  none _ := rfl
  fault _ _ _ h := by cases h

theorem shows_relationResp (alone : Bool) : Shows (relationResp alone ∘ orNone) where
  rows total rows ht hr := by
    have hor : orNone (total, rows) = (total, rows) := if_neg (not_or.mpr ⟨ht, hr⟩)
    rw [Function.comp_apply, hor]
    show (if rows = [] then notFound else if alone then Resp.raw rows else .page total rows).rows = _
    rw [if_neg hr]
    cases alone <;> rfl
  none total := by
    have hor : orNone (total, []) = (0, []) := if_pos (.inr rfl)
    rw [Function.comp_apply, hor]
    rfl
  fault := by
    rintro x code f h
    rw [Function.comp_apply] at h
    generalize orNone x = y at h
    obtain ⟨total, rows⟩ := y
    unfold relationResp at h
    dsimp only at h
    split at h
    · cases h
    · split at h <;> cases h

theorem literal?_emailClause {email : String} (h : readable email = true) :
    ∃ v, literal? (emailClause email) = .ok v := by
  obtain ⟨v, hv⟩ := Option.isSome_iff_exists.mp h
  unfold emailClause
  split
  · exact ⟨some v, by simp only [literal?, literal, hv]; rfl⟩
  · exact ⟨none, rfl⟩

theorem literal?_emailClause_injected {email : String} (h : readable email = false) :
    literal? (emailClause email) = .error .injected := by
  have hne : email ≠ "" := by
    rintro rfl
    exact absurd h (by decide)
  unfold emailClause
  rw [if_pos hne]
  simp only [literal?, literal, not_readable.mp h]
  rfl

/-- The id a filter asks for, or 1 when it asks for none. -/
def pick (id : Int) : Int := if id > 0 then id else 1

theorem wanted_pick (id : Int) : wanted id (pick id) = true := by
  unfold wanted pick
  split
  · simp
  · simp only [Bool.or_eq_true, decide_eq_true_eq]
    omega

/-- A row of one of the next applications is no row of the application. -/
theorem app_ne {appID : Int} (i : Nat) : appID + 1 + (i : Int) ≠ appID := by omega

theorem mul_lt_of_le_one {a i n : Nat} (ha : a ≤ 1) (hi : i < n) : a * i < n := by
  have := Nat.mul_le_mul_right i ha
  omega

theorem length_le_flatMap {α β : Type} (l : List α) (f : α → List β) (h : ∀ x ∈ l, f x ≠ []) :
    l.length ≤ (l.flatMap f).length := by
  induction l with
  | nil => exact Nat.le_refl _
  | cons a l ih =>
    have ha := List.length_pos_iff_ne_nil.mpr (h a List.mem_cons_self)
    have hl := ih fun x hx => h x (List.mem_cons_of_mem _ hx)
    rw [List.flatMap_cons, List.length_append, List.length_cons]
    omega

theorem length_flatMap_le {α β : Type} (l : List α) (f : α → List β)
    (h : ∀ x ∈ l, (f x).length ≤ 1) : (l.flatMap f).length ≤ l.length := by
  induction l with
  | nil => exact Nat.le_refl _
  | cons a l ih =>
    have ha := h a List.mem_cons_self
    have hl := ih fun x hx => h x (List.mem_cons_of_mem _ hx)
    rw [List.flatMap_cons, List.length_append, List.length_cons]
    omega

theorem flatMap_filter {α β : Type} (l : List α) (f : α → List β) (p : α → Bool)
    (h : ∀ x ∈ l, f x ≠ [] → p x = true) : l.flatMap f = (l.filter p).flatMap f := by
  induction l with
  | nil => rfl
  | cons a l ih =>
    have hl := ih fun x hx => h x (List.mem_cons_of_mem _ hx)
    by_cases hp : p a = true
    · rw [List.filter_cons_of_pos hp, List.flatMap_cons, List.flatMap_cons, hl]
    · have ha : f a = [] := by
        by_contra hne
        exact hp (h a List.mem_cons_self hne)
      rw [List.filter_cons_of_neg hp, List.flatMap_cons, ha, List.nil_append, hl]

section Collated

variable [Collating]

/-! ## The endpoints as listings -/

/-- What an endpoint answers, once its form and its token are decoded. -/
def ReadEndpoint.read (q : Request) (appID : Int) : ReadEndpoint → Mysql → Db → Resp
  | .userGET => listing q.page (.users appID) 500 orNotFound
  | .roleGET => fun my db =>
    if q.int "query" = 0 then
      answer (queryAll my (.roleByID appID (q.text "role_id")) db) 400 .data
    else listing q.page (.roles appID) 500 pageResp my db
  | .resourceGET => fun my db =>
    if q.int "query" = 0 then answer (resourceGet my appID [q.int "id"] db) 400 .data
    else listing q.page (.resources appID 0) 500 orNotFound my db
  | .roleUserGET =>
    listing q.page (.roleUsers appID (q.int "role_id") (emailClause (q.text "email"))) 400
      (relationResp (q.int "query" = 0) ∘ orNone)
  | .roleResourceGET =>
    listing q.page (.roleResources appID (q.int "resource_id") (q.int "role_id")) 400
      (relationResp (q.int "api" = 1) ∘ orNone)
  | .userRoleGET =>
    listing q.page (.roleUsers appID 0 (emailClause (q.text "email"))) 400
      (relationResp (q.int "query" = 0) ∘ orNone)
  | .userResourceGET => fun my db =>
    answer (userResourceGet my appID (q.urlGet "email") db) 400 fun ids =>
      if ids = [] then .raw [] else answer (resourceGet my appID ids db) 400 .raw
  | .unrelatedGET =>
    listing q.page (.unrelated (q.int "resource_id") (emailClause (q.text "email"))) 400
      (relationResp (q.int "query" = 0) ∘ orNone)

/-- The endpoint decodes a form, and the form does not parse. -/
def ReadEndpoint.BadForm (q : Request) (ep : ReadEndpoint) : Prop :=
  ep ≠ .userResourceGET ∧ q.form.formErr ≠ none

/-- Six endpoints have one shape. -/
theorem handler_eq_read {ep : ReadEndpoint} (hu : ep ≠ .userGET) (hr : ep ≠ .userResourceGET)
    (C : Crypto) (my : Mysql) (q : Request) : ep.handler C my q =
      withForm q 400 (withToken C q fun appID => reading (ep.read q appID my)) := by
  cases ep with
  | userGET => exact absurd rfl hu
  | userResourceGET => exact absurd rfl hr
  | roleGET => rfl
  | resourceGET => rfl
  | _ =>
    simp only [ReadEndpoint.handler, Rbac.roleUserGET, Rbac.roleResourceGET, Rbac.userRoleGET,
      Rbac.unrelatedGET, relationRoleUserQuery, roleResourceQuery, unrelatedResourceRoles,
      answer_map]
    rfl

/-- A token that decodes. -/
theorem handler_read {C : Crypto} {q : Request} {appID : Int} {ep : ReadEndpoint} (my : Mysql)
    (db : Db) (htok : tokenID C q.token = some appID) (hform : ¬ ep.BadForm q) :
    (ep.handler C my q db).1 = ep.read q appID my db := by
  have hnone : ep ≠ .userResourceGET → q.form.formErr = none := by
    intro hep
    by_contra hne
    exact hform ⟨hep, hne⟩
  by_cases hr : ep = .userResourceGET
  · rw [hr]
    show (withToken C q _ db).1 = _
    rw [withToken_of_tokenID htok]
    rfl
  · by_cases hu : ep = .userGET
    · rw [hu]
      show (Rbac.userGET C my q db).1 = _
      rw [Rbac.userGET, withForm, hnone hr, (parseToken_ok_iff C q.token appID).mpr htok]
      rfl
    · rw [handler_eq_read hu hr, withForm, hnone hr, withToken_of_tokenID htok]
      rfl

/-- A form that does not parse. -/
theorem handler_badForm_read {C : Crypto} {q : Request} {ep : ReadEndpoint}
    (hform : ep.BadForm q) : ∃ e, ∀ my db, (ep.handler C my q db).1 = .status 400 (.text e) := by
  obtain ⟨e, he⟩ := Option.ne_none_iff_exists'.mp hform.2
  refine ⟨e, fun my db => ?_⟩
  by_cases hu : ep = .userGET
  · rw [hu]
    show (withForm q 400 _ db).1 = _
    rw [withForm, he]
    rfl
  · rw [handler_eq_read hu hform.1, withForm, he]
    rfl

/-! ## Tables of other applications -/

/-- `n` users of one email, ids from `base`, one in each of the next applications. -/
def otherUsers (appID base : Int) (email : String) (n : Nat) : Table userSchema :=
  Table.ofRange userSchema base n (fun i => ⟨base + i, appID + 1 + i, "", email, "", ""⟩)
    (fun _ => rfl) fun i _ j _ h => by
      have : appID + 1 + (i : Int) = appID + 1 + (j : Int) := congrArg Prod.fst h
      omega

/-- `n` roles of one owner, ids from `base`, one in each of the next applications. -/
def otherRoles (appID base owner : Int) (n : Nat) : Table roleSchema :=
  Table.ofRange roleSchema base n (fun i => ⟨base + i, appID + 1 + i, "", owner, "", "", ""⟩)
    (fun _ => rfl) fun i _ j _ h => by
      have : appID + 1 + (i : Int) = appID + 1 + (j : Int) := congrArg Prod.fst h
      omega

/-- `n` resources, ids from `base`, one in each of the next applications. -/
def otherResources (appID base : Int) (n : Nat) : Table resourceSchema :=
  Table.ofRange resourceSchema base n (fun i => ⟨base + i, appID + 1 + i, "", "", "", ""⟩)
    (fun _ => rfl) fun i _ j _ h => by
      have : appID + 1 + (i : Int) = appID + 1 + (j : Int) := congrArg Prod.fst h
      omega

theorem not_mem_otherUsers {appID base : Int} {email : String} {n : Nat} (u : User)
    (h : u.appID = appID) : u ∉ (otherUsers appID base email n).rows := by
  intro hmem
  obtain ⟨i, -, rfl⟩ := List.mem_map.mp hmem
  exact app_ne i h

theorem not_mem_otherRoles {appID base owner : Int} {n : Nat} (r : Role) (h : r.appID = appID) :
    r ∉ (otherRoles appID base owner n).rows := by
  intro hmem
  obtain ⟨i, -, rfl⟩ := List.mem_map.mp hmem
  exact app_ne i h

/-- The number of rows a page needs to show one. -/
def Page.need (p : Page) : Nat := p.offset.toNat + 1

/-! ## Users -/

theorem isolates_users_iff (appID : Int) (hpos : appID > 0) (p : Page) :
    Isolates appID (listing p (.users appID) 500 orNotFound) ↔
      plainSort p.sort p.order = true ∧ p.limit > 0 ∧ p.offset ≠ 0 := by
  constructor
  · intro h
    by_cases hp : plainSort p.sort p.order = true
    · refine ⟨hp, ?_⟩
      by_contra hpage
      have hrows : Query.rows { (default : Db) with user := otherUsers appID appID "" 1 }
          (.users appID) = .ok [.user ⟨appID + 0, appID + 1 + 0, "", "", "", ""⟩] := by
        simp [Query.rows, otherUsers, Table.ofRange]
      refine leaks_of_rows rfl hp (fun hrej => hpage ⟨hrej.1, by omega⟩) shows_orNotFound
        { (default : Db) with user := otherUsers appID appID "" 1 } default ?_ hrows
        (List.cons_ne_nil _ _) (fun hlimit => ?_) rfl h
      · refine { Db.Agree.refl (· = appID) default with user := fun u hu => ?_ }
        exact iff_of_false (not_mem_otherUsers u hu) List.not_mem_nil
      · have hzero : p.offset = 0 := by
          by_contra hne
          exact hpage ⟨hlimit, hne⟩
        rw [hzero, List.length_singleton]
        decide
    · exact absurd h (leaks_of_injected
        (parse_of_injected (.inr ⟨⟨_, rfl⟩, Bool.eq_false_iff.mpr hp⟩)) shows_orNotFound)
  · rintro ⟨hp, hlimit, hoffset⟩
    refine isolates_of_behind (w := .users appID) rfl hp hlimit hoffset (fun db => ⟨_, rfl, ?_⟩) ?_
    · rw [List.length_map]
      refine Table.length_filter_le_one _ _ fun u hu u' hu' hid hid' => db.user.eq_of_id hu hu' ?_
      have hne : ¬ appID = 0 := by omega
      simp only [hne, decide_false, Bool.false_or, decide_eq_true_eq] at hid hid'
      exact hid.trans hid'.symm
    · intro t t'
      simp [orNotFound]

/-! ## One table -/

/-- A query of rows of the application. -/
theorem isolates_own_iff {p : Page} {qy : Query String} {w : Query Int} {code : Int}
    {good : Int × List Row → Resp} {appID : Int} (hq : qy.parse = .ok w) (hshows : Shows good)
    (hrows : ∀ db db', Db.Agree (· = appID) db db' → w.rows db = w.rows db') :
    Isolates appID (listing p qy code good) ↔ plainSort p.sort p.order = true := by
  constructor
  · intro h
    by_contra hp
    exact leaks_of_injected
      (parse_of_injected (.inr ⟨⟨w, hq⟩, Bool.eq_false_iff.mpr hp⟩)) hshows h
  · exact fun hp => isolates_of_rows hq hp hrows

theorem rows_roles {appID : Int} {db db' : Db} (h : db.Agree (· = appID) db') :
    (Query.roles appID).rows db = (Query.roles appID).rows db' := by
  have hfilter := Table.filter_eq_of_mem_iff db.role db'.role (fun r => r.appID = appID)
    fun r hr => h.role r (of_decide_eq_true hr)
  simp only [Query.rows, hfilter]

theorem rows_roleByID {appID n : Int} {db db' : Db} (h : db.Agree (· = appID) db') :
    (Query.roleByID appID n).rows db = (Query.roleByID appID n).rows db' := by
  have hfilter := Table.filter_eq_of_mem_iff db.role db'.role
    (fun r => r.appID = appID && r.id = n)
    fun r hr => h.role r (of_decide_eq_true (Bool.and_eq_true_iff.mp hr).1)
  simp only [Query.rows, hfilter]

theorem rows_resources {appID : Int} (hpos : appID > 0) {db db' : Db}
    (h : db.Agree (· = appID) db') :
    (Query.resources appID 0).rows db = (Query.resources appID 0).rows db' := by
  have hfilter := Table.filter_eq_of_mem_iff db.resource db'.resource
    (fun s => wanted appID s.appID && wanted 0 s.id) fun s hs => by
      refine h.resource s ?_
      have hne : ¬ appID ≤ 0 := by omega
      simpa [wanted, hne] using hs
  simp only [Query.rows, hfilter]

theorem rows_resourcesIn {appID : Int} (ids : List Int) {db db' : Db}
    (h : db.Agree (· = appID) db') :
    (Query.resourcesIn appID ids).rows db = (Query.resourcesIn appID ids).rows db' := by
  have hfilter := Table.filter_eq_of_mem_iff db.resource db'.resource
    (fun s => s.appID = appID && ids.contains s.id)
    fun s hs => h.resource s (of_decide_eq_true (Bool.and_eq_true_iff.mp hs).1)
  simp only [Query.rows, hfilter]

theorem resourceGet_congr {appID : Int} {my : Mysql} (id : Int) (ids : List Int) {db db' : Db}
    (h : db.Agree (· = appID) db') :
    resourceGet my appID (id :: ids) db = resourceGet my appID (id :: ids) db' := by
  have hrows := rows_resourcesIn (id :: ids) h
  have hselect : ∀ s, s.query = .resourcesIn appID (id :: ids) → s.sort = "" → s.limit = 0 →
      select my s db = select my s db' := by
    intro s hq hsort hlimit
    have hs : s.parse = .ok (.resourcesIn appID (id :: ids)) := by
      simp only [Select.parse, hq, Query.parse, hsort, hlimit]
      rfl
    refine select_congr (by rw [hs]; exact fun h => by cases h) fun w hw => ?_
    rw [hs] at hw
    cases hw
    exact hrows
  unfold resourceGet query
  rw [hselect ⟨.resourcesIn appID (id :: ids), "", "", 0, 0⟩ rfl rfl rfl]
  cases select my ⟨.resourcesIn appID (id :: ids), "", "", 0, 0⟩ db' <;> rfl

/-! ## Joins -/

/-- A query whose rows another database can take away. -/
theorem isolates_join_iff {p : Page} {qy : Query String} {code : Int}
    {good : Int × List Row → Resp} {appID : Int} {clean : Bool} (hshows : Shows good)
    (hbad : clean = false → qy.parse = .error .injected)
    (hleak : clean = true → ∃ w db db' rows, qy.parse = .ok w ∧ Db.Agree (· = appID) db db' ∧
      w.rows db = .ok rows ∧ p.need ≤ rows.length ∧ w.rows db' = .ok []) :
    Isolates appID (listing p qy code good) ↔
      clean = true ∧ plainSort p.sort p.order = true ∧ p.limit > 0 ∧ p.offset < 0 := by
  constructor
  · intro h
    have hc : clean = true := by
      by_contra hc
      exact leaks_of_injected (parse_of_injected (.inl (hbad (Bool.eq_false_iff.mpr hc)))) hshows h
    obtain ⟨w, db, db', rows, hq, hagree, hrows, hneed, hnil⟩ := hleak hc
    have hp : plainSort p.sort p.order = true := by
      by_contra hp
      exact leaks_of_injected
        (parse_of_injected (.inr ⟨⟨w, hq⟩, Bool.eq_false_iff.mpr hp⟩)) hshows h
    refine ⟨hc, hp, ?_⟩
    by_contra hacc
    unfold Page.need at hneed
    refine leaks_of_rows hq hp hacc hshows db db' hagree hrows ?_ (fun _ => by omega) hnil h
    rintro rfl
    rw [List.length_nil] at hneed
    omega
  · rintro ⟨hc, hp, hrej⟩
    obtain ⟨w, db, db', rows, hq, -⟩ := hleak hc
    exact isolates_of_rejected hq hp hrej

/-- `n` members of one role, in the application. -/
def members (appID roleID : Int) (n : Nat) : Table roleUserSchema :=
  Table.ofRange roleUserSchema 1 n (fun i => ⟨1 + i, appID, roleID, 1 + i, "", ""⟩)
    (fun _ => rfl) fun i _ j _ h => by
      have : 1 + (i : Int) = 1 + (j : Int) := congrArg (·.2.2) h
      omega

/-- A role of another application with `n` members of the application. -/
def membersDb (appID roleID : Int) (email : String) (n : Nat) : Db where
  role := otherRoles appID roleID 0 1
  resource := default
  user := otherUsers appID 1 email n
  roleUser := members appID roleID n
  roleResource := default

theorem roleUsers_leak (appID roleID : Int) (email : Option String) (n : Nat) :
    ∃ db db' rows, Db.Agree (· = appID) db db' ∧
      (Query.roleUsers appID roleID email).rows db = .ok rows ∧ n ≤ rows.length ∧
      (Query.roleUsers appID roleID email).rows db' = .ok [] := by
  refine ⟨membersDb appID (pick roleID) (email.getD "") n,
    { membersDb appID (pick roleID) (email.getD "") n with role := default }, _, ?_, rfl, ?_, ?_⟩
  · refine { Db.Agree.refl (· = appID) (membersDb appID (pick roleID) (email.getD "") n) with
      role := fun r hr => ?_ }
    exact iff_of_false (not_mem_otherRoles r hr) List.not_mem_nil
  · rw [List.length_map]
    have hlen : (membersDb appID (pick roleID) (email.getD "") n).roleUser.rows.length = n := by
      simp [membersDb, members, Table.ofRange]
    refine Nat.le_trans (Nat.le_of_eq hlen.symm) (length_le_flatMap _ _ fun ru hru => ?_)
    obtain ⟨i, hi, rfl⟩ := List.mem_map.mp hru
    -- the role row of the member, then its user row
    have hrole : (⟨pick roleID + (0 : Nat), appID + 1 + (0 : Nat), "", 0, "", "", ""⟩ : Role) ∈
        (otherRoles appID (pick roleID) 0 1).rows := List.mem_map.mpr ⟨0, by simp, rfl⟩
    have huser : (⟨1 + i, appID + 1 + i, "", email.getD "", "", ""⟩ : User) ∈
        (otherUsers appID 1 (email.getD "") n).rows := List.mem_map.mpr ⟨i, hi, rfl⟩
    refine List.ne_nil_of_mem (List.mem_flatMap.mpr ⟨_, List.mem_filter.mpr ⟨hrole, ?_⟩,
      List.mem_map.mpr ⟨_, List.mem_filter.mpr ⟨huser, ?_⟩, rfl⟩⟩)
    · simp
    · have happ : wanted appID appID = true := by simp [wanted]
      cases email with
      | none => simp [happ, wanted_pick]
      | some v => simp [happ, wanted_pick]
  · simp [Query.rows, Db.roleUsers, show (default : Table roleSchema).rows = [] from rfl]

theorem isolates_roleUsers_iff (appID roleID : Int) (email : String) (alone : Bool) (p : Page) :
    Isolates appID (listing p (.roleUsers appID roleID (emailClause email)) 400
      (relationResp alone ∘ orNone)) ↔
      readable email = true ∧ plainSort p.sort p.order = true ∧ p.limit > 0 ∧ p.offset < 0 := by
  refine isolates_join_iff (shows_relationResp alone) (fun h => ?_) fun h => ?_
  · simp only [Query.parse, literal?_emailClause_injected h]
    rfl
  · obtain ⟨v, hv⟩ := literal?_emailClause h
    obtain ⟨db, db', rows, hleak⟩ := roleUsers_leak appID roleID v p.need
    refine ⟨.roleUsers appID roleID v, db, db', rows, ?_, hleak⟩
    simp only [Query.parse, hv]
    rfl

/-- `n` roles of one owner in other applications, and the owner. -/
def rolesDb (appID : Int) (email : String) (n : Nat) : Db where
  role := otherRoles appID 1 1 n
  resource := default
  user := otherUsers appID 1 email 1
  roleUser := default
  roleResource := default

theorem unrelated_leak (appID resourceID : Int) (email : Option String) (n : Nat) :
    ∃ db db' rows, Db.Agree (· = appID) db db' ∧
      (Query.unrelated resourceID email).rows db = .ok rows ∧ n ≤ rows.length ∧
      (Query.unrelated resourceID email).rows db' = .ok [] := by
  have hun : ∀ v r, (rolesDb appID v n).unrelated resourceID r = true := fun _ _ => rfl
  have hagree : Db.Agree (· = appID) (rolesDb appID (email.getD "") n) default := by
    refine { Db.Agree.refl (· = appID) default with
      role := fun r hr => iff_of_false (not_mem_otherRoles r hr) List.not_mem_nil
      user := fun u hu => iff_of_false (not_mem_otherUsers u hu) List.not_mem_nil }
  have hall : (Query.unrelated resourceID email).rows (rolesDb appID (email.getD "") n) =
      .ok ((rolesDb appID (email.getD "") n).role.rows.map .role) := by
    cases email with
    | none =>
      have hfilter : (rolesDb appID "" n).role.rows.filter
          ((rolesDb appID "" n).unrelated resourceID) = (rolesDb appID "" n).role.rows :=
        List.filter_eq_self.mpr fun r _ => hun "" r
      exact congrArg (fun l => Except.ok (l.map Row.role)) hfilter
    | some v =>
      have howner : scalar (((rolesDb appID v n).user.rows.filter fun u =>
          weight u.email = weight v).map (·.id)) = .ok (some 1) := by
        simp [rolesDb, otherUsers, Table.ofRange, scalar]
      have hrole : ∀ r ∈ (rolesDb appID v n).role.rows, r.userID = 1 := by
        intro r hr
        obtain ⟨i, -, rfl⟩ := List.mem_map.mp hr
        rfl
      have hfilter : ((rolesDb appID v n).role.rows.filter fun r =>
          (rolesDb appID v n).unrelated resourceID r && some (1 : Int) = some r.userID) =
          (rolesDb appID v n).role.rows := by
        refine List.filter_eq_self.mpr fun r hr => ?_
        rw [hun v r, hrole r hr]
        rfl
      simp only [Query.rows, Option.getD_some, howner]
      exact congrArg (fun l => Except.ok (l.map Row.role)) hfilter
  refine ⟨_, default, _, hagree, hall, ?_, ?_⟩
  · simp [rolesDb, otherRoles, Table.ofRange]
  · cases email <;> rfl

theorem isolates_unrelated_iff (appID resourceID : Int) (email : String) (alone : Bool) (p : Page) :
    Isolates appID (listing p (.unrelated resourceID (emailClause email)) 400
      (relationResp alone ∘ orNone)) ↔
      readable email = true ∧ plainSort p.sort p.order = true ∧ p.limit > 0 ∧ p.offset < 0 := by
  refine isolates_join_iff (shows_relationResp alone) (fun h => ?_) fun h => ?_
  · simp only [Query.parse, literal?_emailClause_injected h]
    rfl
  · obtain ⟨v, hv⟩ := literal?_emailClause h
    obtain ⟨db, db', rows, hleak⟩ := unrelated_leak appID resourceID v p.need
    refine ⟨.unrelated resourceID v, db, db', rows, ?_, hleak⟩
    simp only [Query.parse, hv]
    rfl

/-- `n` grants of the application: the `i`-th is of role `roleID + a * i` and resource
    `resID + b * i`, all of other applications. -/
def grantsDb (appID roleID resID : Int) (a b n : Nat) (h : a = 1 ∨ b = 1 ∨ n ≤ 1) : Db where
  role := otherRoles appID roleID 0 n
  resource := otherResources appID resID n
  user := default
  roleUser := default
  roleResource := Table.ofRange roleResourceSchema 1 n
    (fun i => ⟨1 + i, appID, roleID + (a * i : Nat), resID + (b * i : Nat), "", ""⟩)
    (fun _ => rfl) fun i hi j hj hkey => by
      have hr : roleID + (a * i : Nat) = roleID + (a * j : Nat) := congrArg (·.2.1) hkey
      have hs : resID + (b * i : Nat) = resID + (b * j : Nat) := congrArg (·.2.2) hkey
      rcases h with rfl | rfl | h
      · omega
      · omega
      · omega

theorem roleResources_leak (appID resID roleID : Int) (a b n : Nat) (ha : a ≤ 1) (hb : b ≤ 1)
    (h : a = 1 ∨ b = 1 ∨ n ≤ 1) (hrole : a = 0 ∨ roleID ≤ 0) (hres : b = 0 ∨ resID ≤ 0) :
    ∃ db db' rows, Db.Agree (· = appID) db db' ∧
      (Query.roleResources appID resID roleID).rows db = .ok rows ∧ n ≤ rows.length ∧
      (Query.roleResources appID resID roleID).rows db' = .ok [] := by
  have hwanted : ∀ {id : Int} {c : Nat} (i : Nat), c = 0 ∨ id ≤ 0 →
      wanted id (pick id + (c * i : Nat)) = true := by
    rintro id c i (rfl | hid)
    · simpa using wanted_pick id
    · simp [wanted, hid]
  refine ⟨grantsDb appID (pick roleID) (pick resID) a b n h,
    { grantsDb appID (pick roleID) (pick resID) a b n h with role := default }, _, ?_, rfl, ?_, ?_⟩
  · refine { Db.Agree.refl (· = appID) (grantsDb appID (pick roleID) (pick resID) a b n h) with
      role := fun r hr => ?_ }
    exact iff_of_false (not_mem_otherRoles r hr) List.not_mem_nil
  · rw [List.length_map]
    have hlen : (grantsDb appID (pick roleID) (pick resID) a b n h).roleResource.rows.length = n := by
      simp [grantsDb, Table.ofRange]
    refine Nat.le_trans (Nat.le_of_eq hlen.symm) (length_le_flatMap _ _ fun rr hrr => ?_)
    obtain ⟨i, hi, rfl⟩ := List.mem_map.mp hrr
    rw [List.mem_range] at hi
    -- the role row of the grant, then its resource row
    have hr : (⟨pick roleID + (a * i : Nat), appID + 1 + (a * i : Nat), "", 0, "", "", ""⟩ : Role) ∈
        (otherRoles appID (pick roleID) 0 n).rows :=
      List.mem_map.mpr ⟨a * i, List.mem_range.mpr (mul_lt_of_le_one ha hi), rfl⟩
    have hs : (⟨pick resID + (b * i : Nat), appID + 1 + (b * i : Nat), "", "", "", ""⟩ : Resource) ∈
        (otherResources appID (pick resID) n).rows :=
      List.mem_map.mpr ⟨b * i, List.mem_range.mpr (mul_lt_of_le_one hb hi), rfl⟩
    refine List.ne_nil_of_mem (List.mem_flatMap.mpr ⟨_, List.mem_filter.mpr ⟨hr, ?_⟩,
      List.mem_map.mpr ⟨_, List.mem_filter.mpr ⟨hs, ?_⟩, rfl⟩⟩)
    · exact decide_eq_true rfl
    · have happ : wanted appID appID = true := by simp [wanted]
      simp only [happ, hwanted i hrole, hwanted i hres, Bool.and_true, decide_true]
  · simp [Query.rows, Db.roleResources, show (default : Table roleSchema).rows = [] from rfl]

/-- One role and one resource of one application have at most one grant. -/
theorem length_roleResources_le (db : Db) {appID resID roleID : Int} (happ : appID > 0)
    (hres : resID > 0) (hrole : roleID > 0) :
    (db.roleResources fun rr r s => wanted appID rr.appID && wanted resID s.id &&
      wanted roleID r.id).length ≤ 1 := by
  have hwanted : ∀ {x y : Int}, x > 0 → wanted x y = true → y = x := by
    intro x y hx h
    have hne : ¬ x ≤ 0 := by omega
    simpa [wanted, hne] using h
  unfold Db.roleResources
  rw [flatMap_filter _ _ fun rr =>
    rr.appID = appID && rr.roleID = roleID && rr.resourceID = resID]
  · refine Nat.le_trans (length_flatMap_le _ _ fun rr _ => ?_)
      (Table.length_filter_le_one _ _ fun r hr r' hr' hk hk' => db.roleResource.eq_of_key hr hr' ?_)
    · refine Nat.le_trans (length_flatMap_le _ _ fun r _ => ?_)
        (Table.length_filter_le_one _ _ fun r hr r' hr' hid hid' => db.role.eq_of_id hr hr' ?_)
      · rw [List.length_map]
        refine Table.length_filter_le_one _ _ fun s hs s' hs' hid hid' =>
          db.resource.eq_of_id hs hs' ?_
        simp only [Bool.and_eq_true, decide_eq_true_eq] at hid hid'
        exact hid.1.symm.trans hid'.1
      · rw [decide_eq_true_eq] at hid hid'
        exact hid.symm.trans hid'
    · simp only [Bool.and_eq_true, decide_eq_true_eq] at hk hk'
      simp [hk, hk']
  · intro rr _ hne
    obtain ⟨x, hx⟩ := List.exists_mem_of_ne_nil _ hne
    obtain ⟨r, hr, hx⟩ := List.mem_flatMap.mp hx
    obtain ⟨s, hs, -⟩ := List.mem_map.mp hx
    have hr := of_decide_eq_true (List.mem_filter.mp hr).2
    have hs := (List.mem_filter.mp hs).2
    simp only [Bool.and_eq_true, decide_eq_true_eq] at hs ⊢
    obtain ⟨hsid, ⟨happ', hres'⟩, hrole'⟩ := hs
    exact ⟨⟨hwanted happ happ', hr.trans (hwanted hrole hrole')⟩, hsid.trans (hwanted hres hres')⟩

theorem isolates_roleResources_iff (appID resID roleID : Int) (happ : appID > 0) (alone : Bool)
    (p : Page) :
    Isolates appID (listing p (.roleResources appID resID roleID) 400
      (relationResp alone ∘ orNone)) ↔
      plainSort p.sort p.order = true ∧ p.limit > 0 ∧
        (p.offset < 0 ∨ p.offset > 0 ∧ resID > 0 ∧ roleID > 0) := by
  have hshows := shows_relationResp alone
  constructor
  · intro h
    by_cases hp : plainSort p.sort p.order = true
    · refine ⟨hp, ?_⟩
      by_contra hpage
      have hacc : ¬ (p.limit > 0 ∧ p.offset < 0) := fun hrej => hpage ⟨hrej.1, .inl hrej.2⟩
      -- enough grants for the page: of many resources, of many roles, or a single one
      obtain ⟨n, db, db', rows, hpos, hneed, hagree, hrows, hlen, hnil⟩ :
          ∃ n db db' rows, 0 < n ∧ (p.limit > 0 → p.offset.toNat < n) ∧ Db.Agree (· = appID) db db' ∧
            (Query.roleResources appID resID roleID).rows db = .ok rows ∧ n ≤ rows.length ∧
            (Query.roleResources appID resID roleID).rows db' = .ok [] := by
        by_cases hres : resID > 0
        · by_cases hrole : roleID > 0
          · obtain ⟨db, db', rows, hleak⟩ := roleResources_leak appID resID roleID 0 0 1 (by omega)
              (by omega) (.inr (.inr (by omega))) (.inl rfl) (.inl rfl)
            refine ⟨1, db, db', rows, by omega, fun hlimit => ?_, hleak⟩
            have hzero : p.offset ≤ 0 := by
              by_contra hgt
              exact hpage ⟨hlimit, .inr ⟨by omega, hres, hrole⟩⟩
            omega
          · obtain ⟨db, db', rows, hleak⟩ := roleResources_leak appID resID roleID 1 0 p.need
              (by omega) (by omega) (.inl rfl) (.inr (by omega)) (.inl rfl)
            exact ⟨p.need, db, db', rows, Nat.succ_pos _, fun _ => Nat.lt_succ_self _, hleak⟩
        · obtain ⟨db, db', rows, hleak⟩ := roleResources_leak appID resID roleID 0 1 p.need
            (by omega) (by omega) (.inr (.inl rfl)) (.inl rfl) (.inr (by omega))
          exact ⟨p.need, db, db', rows, Nat.succ_pos _, fun _ => Nat.lt_succ_self _, hleak⟩
      refine leaks_of_rows rfl hp hacc hshows db db' hagree hrows ?_ (fun hlimit => ?_) hnil h
      · rintro rfl
        rw [List.length_nil] at hlen
        omega
      · have := hneed hlimit
        omega
    · exact absurd h (leaks_of_injected
        (parse_of_injected (.inr ⟨⟨_, rfl⟩, Bool.eq_false_iff.mpr hp⟩)) hshows)
  · rintro ⟨hp, hlimit, hneg | ⟨hoffset, hres, hrole⟩⟩
    · exact isolates_of_rejected rfl hp ⟨hlimit, hneg⟩
    · refine isolates_of_behind (w := .roleResources appID resID roleID) rfl hp hlimit (by omega)
        (fun db => ⟨_, rfl, ?_⟩) fun t t' => ?_
      · rw [List.length_map]
        exact length_roleResources_le db happ hres hrole
      · have hor : ∀ t, orNone (t, []) = (0, []) := fun t => if_pos (.inr rfl)
        rw [Function.comp_apply, Function.comp_apply, hor, hor]

/-! ## Without a page -/

theorem isolates_roleByID_iff (appID : Int) (id : String) :
    Isolates appID (fun my db => answer (queryAll my (.roleByID appID id) db) 400 .data) ↔
      number id ≠ .error .injected := by
  have hparse : (⟨.roleByID appID id, "", "", 0, 0⟩ : Select).parse =
      (number id).map (.roleByID appID) := by
    simp only [Select.parse, Query.parse]
    cases number id <;> rfl
  constructor
  · intro h hinj
    rw [hinj] at hparse
    have heq := h peeping _ _ (agree_otherRole appID)
    simp only [queryAll, select, hparse] at heq
    cases heq
  · intro hnum my db db' hagree
    have hselect : queryAll my (.roleByID appID id) db = queryAll my (.roleByID appID id) db' := by
      refine select_congr ?_ fun w hw => ?_
      · rw [hparse]
        cases hn : number id with
        | ok n => exact fun h => by cases h
        | error f =>
          intro h
          cases h
          exact hnum hn
      · rw [hparse] at hw
        cases hn : number id with
        | error f =>
          rw [hn] at hw
          cases hw
        | ok n =>
          rw [hn] at hw
          cases hw
          exact rows_roleByID hagree
    show answer _ _ _ = answer _ _ _
    rw [hselect]

/-- One user and one resource of the application, a grant to role 1, and a membership of the user
    in role 1, of the next application, when `member` holds. -/
def memberDb (appID : Int) (email : String) (member : Bool) : Db where
  role := default
  resource := (default : Table resourceSchema).upsert (resourceEntry "" appID "" "")
  user := (default : Table userSchema).upsert (userEntry "" appID "" email)
  roleUser :=
    if member then (default : Table roleUserSchema).upsert (roleUserEntry "" (appID + 1) 1 1)
    else default
  roleResource := (default : Table roleResourceSchema).upsert (roleResourceEntry "" appID 1 1)

theorem agree_memberDb (appID : Int) (email : String) :
    Db.Agree (· = appID) (memberDb appID email true) (memberDb appID email false) := by
  refine { Db.Agree.refl (· = appID) (memberDb appID email false) with roleUser := fun r hr => ?_ }
  refine iff_of_false (fun hmem => ?_) List.not_mem_nil
  obtain rfl : r = ⟨1, appID + 1, 1, 1, "", ""⟩ := List.mem_singleton.mp hmem
  have happ : appID + 1 = appID := hr
  omega

/-- `user/resource` GET is never isolated. -/
theorem not_isolates_userResource (appID : Int) (q : Request) :
    ¬ Isolates appID (ReadEndpoint.read q appID .userResourceGET) := by
  intro h
  cases hr : readLiteral (q.urlGet "email") with
  | none =>
    have hparse : (⟨.resourceIDs appID (q.urlGet "email"), "", "", 0, 0⟩ : Select).parse =
        .error .injected := by
      simp only [Select.parse, Query.parse, literal, hr]
      rfl
    have heq := h peeping _ _ (agree_otherRole appID)
    simp only [ReadEndpoint.read, userResourceGet, queryAll, select, hparse] at heq
    cases heq
  | some v =>
    have hparse : (⟨.resourceIDs appID (q.urlGet "email"), "", "", 0, 0⟩ : Select).parse =
        .ok (.resourceIDs appID v) := by
      simp only [Select.parse, Query.parse, literal, hr]
      rfl
    have hids : ∀ m, userResourceGet (.steady default) appID (q.urlGet "email")
        (memberDb appID v m) = .ok (if m then [1] else []) := by
      intro m
      have hselect : select (.steady default) ⟨.resourceIDs appID (q.urlGet "email"), "", "", 0, 0⟩
          (memberDb appID v m) = _ := select_of_parse rfl hparse _
      have hrows : (Query.resourceIDs appID v).rows (memberDb appID v m) =
          .ok (if m then [.id 1] else []) := by
        have hrr : (memberDb appID v m).roleResource.rows = [⟨1, appID, 1, 1, "", ""⟩] := rfl
        have hu : (memberDb appID v m).user.rows = [⟨1, appID, "", v, "", ""⟩] := rfl
        have hru : (memberDb appID v m).roleUser.rows =
            if m then [⟨1, appID + 1, 1, 1, "", ""⟩] else [] := by cases m <;> rfl
        simp only [Query.rows, Db.isRoleOf, Db.isUserOf, hrr, hu, hru]
        cases m <;> simp
      rw [hrows] at hselect
      simp only [userResourceGet, queryAll, hselect]
      cases m <;> rfl
    have hres : resourceGet (.steady default) appID [1] (memberDb appID v true) =
        .ok [.resource ⟨1, appID, "", "", "", ""⟩] := by
      have hrows : (Query.resourcesIn appID [1]).rows (memberDb appID v true) =
          .ok [.resource ⟨1, appID, "", "", "", ""⟩] := by
        have hs : (memberDb appID v true).resource.rows = [⟨1, appID, "", "", "", ""⟩] := rfl
        simp only [Query.rows, hs]
        simp
      have hselect : select (.steady default) ⟨.resourcesIn appID [1], "", "", 0, 0⟩
          (memberDb appID v true) = _ := select_of_parse rfl rfl _
      rw [hrows] at hselect
      simp only [resourceGet, query, hselect]
      rfl
    have heq := h (.steady default) _ _ (agree_memberDb appID v)
    simp only [ReadEndpoint.read, hids, answer, if_true, hres] at heq
    cases heq

/-! ## All endpoints -/

/-- The page is rejected for every database. -/
def Page.Rejected (p : Page) : Prop :=
  plainSort p.sort p.order = true ∧ p.limit > 0 ∧ p.offset < 0

/-- The requests whose response depends on the rows of the application only. -/
def ReadSafe (q : Request) : ReadEndpoint → Prop
  | .userGET => plainSort q.page.sort q.page.order = true ∧ q.page.limit > 0 ∧ q.page.offset ≠ 0
  | .roleGET =>
    if q.int "query" = 0 then number (q.text "role_id") ≠ .error .injected
    else plainSort q.page.sort q.page.order = true
  | .resourceGET => q.int "query" = 0 ∨ plainSort q.page.sort q.page.order = true
  | .roleUserGET => readable (q.text "email") = true ∧ q.page.Rejected
  | .roleResourceGET => plainSort q.page.sort q.page.order = true ∧ q.page.limit > 0 ∧
    (q.page.offset < 0 ∨ q.page.offset > 0 ∧ q.int "resource_id" > 0 ∧ q.int "role_id" > 0)
  | .userRoleGET => readable (q.text "email") = true ∧ q.page.Rejected
  | .userResourceGET => False
  | .unrelatedGET => readable (q.text "email") = true ∧ q.page.Rejected

theorem isolates_read_iff (appID : Int) (hpos : appID > 0) (q : Request) (ep : ReadEndpoint) :
    Isolates appID (ep.read q appID) ↔ ReadSafe q ep := by
  cases ep with
  | userGET => exact isolates_users_iff appID hpos q.page
  | roleGET =>
    by_cases hq : q.int "query" = 0
    · simp only [ReadEndpoint.read, ReadSafe, if_pos hq]
      exact isolates_roleByID_iff appID _
    · simp only [ReadEndpoint.read, ReadSafe, if_neg hq]
      exact isolates_own_iff rfl shows_pageResp fun db db' h => rows_roles h
  | resourceGET =>
    by_cases hq : q.int "query" = 0
    · refine iff_of_true (fun my db db' hagree => ?_) (.inl hq)
      simp only [ReadEndpoint.read, if_pos hq]
      rw [resourceGet_congr _ _ hagree]
    · simp only [ReadEndpoint.read, ReadSafe, hq, if_false, false_or]
      exact isolates_own_iff rfl shows_orNotFound fun db db' h => rows_resources hpos h
  | roleUserGET => exact isolates_roleUsers_iff appID _ _ _ q.page
  | roleResourceGET => exact isolates_roleResources_iff appID _ _ hpos _ q.page
  | userRoleGET => exact isolates_roleUsers_iff appID _ _ _ q.page
  | userResourceGET => exact iff_of_false (not_isolates_userResource appID q) id
  | unrelatedGET => exact isolates_unrelated_iff appID _ _ _ q.page

/-- Without a token `user` GET lists the users of every application. -/
theorem noRows_users_iff (p : Page) :
    (∀ my db, (listing p (.users 0) 500 orNotFound my db).rows = []) ↔ p.Rejected := by
  have hall : ∀ n, Query.rows { (default : Db) with user := otherUsers 0 1 "" n } (.users 0) =
      .ok ((otherUsers 0 1 "" n).rows.map .user) := by
    intro n
    have hfilter : ((otherUsers 0 1 "" n).rows.filter fun u =>
        decide ((0 : Int) = 0) || decide (u.id = 0)) = (otherUsers 0 1 "" n).rows :=
      List.filter_eq_self.mpr fun _ _ => rfl
    exact congrArg (fun l => Except.ok (l.map Row.user)) hfilter
  have hlen : ∀ n, ((otherUsers 0 1 "" n).rows.map Row.user).length = n := by
    intro n
    simp [otherUsers, Table.ofRange]
  constructor
  · intro h
    have hp : plainSort p.sort p.order = true := by
      by_contra hp
      have hinj : (p.of (.users 0)).parse = .error .injected :=
        parse_of_injected (.inr ⟨⟨_, rfl⟩, Bool.eq_false_iff.mpr hp⟩)
      have hrows := h { Mysql.steady default with straySelect := fun _ _ => .ok [.id 0] }
        { (default : Db) with user := otherUsers 0 1 "" 1 }
      have htotal : total { Mysql.steady default with straySelect := fun _ _ => .ok [.id 0] }
          (p.of (.users 0)) { (default : Db) with user := otherUsers 0 1 "" 1 } = 1 := by
        simp only [total, count, Page.of, Query.parse, hall 1]
        rfl
      simp only [listing, query, select, hinj, htotal] at hrows
      cases hrows
    refine ⟨hp, ?_⟩
    by_contra hacc
    refine listing_shows rfl hp hacc shows_orNotFound (hall p.need) ?_ (fun _ => ?_)
      (h (.steady default) _)
    · rw [← List.length_pos_iff_ne_nil, hlen]
      exact Nat.succ_pos _
    · rw [hlen]
      exact Nat.lt_succ_self _
  · rintro ⟨hp, hrej⟩ my db
    obtain ⟨f, hf⟩ : ∃ f, ∀ db, listing p (.users 0) 500 orNotFound my db = .status 500 (.fault f) :=
      listing_of_rejected rfl hp hrej my
    rw [hf]
    rfl

/-- Requests whose token does not decode. -/
theorem noRows_iff {C : Crypto} {q : Request} {ep : ReadEndpoint} (hform : ¬ ep.BadForm q)
    (htok : tokenID C q.token = none) : (∀ my db, (ep.handler C my q db).1.rows = []) ↔
      (ep = .userGET → (∃ e, parseToken C q.token = .err e) → q.page.Rejected) := by
  have hnot : ∀ appID, parseToken C q.token ≠ .ok appID := by
    intro appID h
    rw [(parseToken_ok_iff C q.token appID).mp h] at htok
    cases htok
  have htoken : ∀ k db, (withToken C q k db).1.rows = [] := by
    intro k db
    unfold withToken
    cases h : parseToken C q.token with
    | ok appID => exact absurd h (hnot appID)
    | err e => rfl
    | panic p => rfl
  by_cases hr : ep = .userResourceGET
  · subst hr
    exact iff_of_true (fun my db => htoken _ db) fun h => by cases h
  have hnone : q.form.formErr = none := by
    by_contra hne
    exact hform ⟨hr, hne⟩
  by_cases hu : ep = .userGET
  · subst hu
    cases h : parseToken C q.token with
    | ok appID => exact absurd h (hnot appID)
    | panic p =>
      refine iff_of_true (fun my db => ?_) fun _ he => ?_
      · simp only [ReadEndpoint.handler, Rbac.userGET, withForm, hnone, h]
        rfl
      · obtain ⟨e, he⟩ := he
        cases he
    | err e =>
      have hget : ∀ my, ReadEndpoint.handler .userGET C my q =
          reading (listing q.page (.users 0) 500 orNotFound my) := by
        intro my
        simp only [ReadEndpoint.handler, Rbac.userGET, withForm, hnone, h]
        rfl
      have hsome : (∃ e', (Res.err e : Res String Int) = .err e') ↔ True := iff_true_intro ⟨e, rfl⟩
      simp only [hget, true_imp_iff, hsome]
      exact noRows_users_iff q.page
  · refine iff_of_true (fun my db => ?_) fun h => absurd h hu
    rw [handler_eq_read hu hr, withForm, hnone]
    exact htoken _ db

/-- The responses to an application depend on its own rows only, and without a token there are
    no rows. -/
def ReadIsolated (C : Crypto) (ep : ReadEndpoint) (q : Request) : Prop :=
  (∀ appID, appID > 0 → tokenID C q.token = some appID →
    ∀ my (db db' : Db), db.Agree (· = appID) db' →
      (ep.handler C my q db).1 = (ep.handler C my q db').1) ∧
  (tokenID C q.token = none → ∀ my db, (ep.handler C my q db).1.rows = [])

/-- Reads are isolated exactly when the form does not parse, or a token of an application comes
    with a safe request, and a token that does not decode does not come with a page of users. -/
theorem readIsolated_iff (C : Crypto) (ep : ReadEndpoint) (q : Request) :
    ReadIsolated C ep q ↔ ep.BadForm q ∨
      ((∀ appID, appID > 0 → tokenID C q.token = some appID → ReadSafe q ep) ∧
        (ep = .userGET → (∃ e, parseToken C q.token = .err e) → q.page.Rejected)) := by
  by_cases hform : ep.BadForm q
  · obtain ⟨e, he⟩ : ∃ e, ∀ my db, (ep.handler C my q db).1 = .status 400 (.text e) :=
      handler_badForm_read hform
    refine iff_of_true ⟨fun appID _ _ my db db' _ => by rw [he, he], fun _ my db => ?_⟩ (.inl hform)
    rw [he]
    rfl
  · rw [or_iff_right hform]
    refine and_congr ?_ ?_
    · refine forall_congr' fun appID => forall_congr' fun hpos => forall_congr' fun htok => ?_
      rw [← isolates_read_iff appID hpos]
      refine forall_congr' fun my => forall_congr' fun db => forall_congr' fun db' => ?_
      rw [handler_read my db htok hform, handler_read my db' htok hform]
    · cases htok : tokenID C q.token with
      | none => exact (forall_prop_of_true rfl).trans (noRows_iff hform htok)
      | some appID =>
        refine iff_of_true (fun h => by cases h) fun _ ⟨e, he⟩ => ?_
        rw [(parseToken_ok_iff C q.token appID).mpr htok] at he
        cases he

/-- Ask for the roles that are not related to resource 1. -/
def askUnrelated (token : String) : Request := ⟨⟨none, [("resource_id", "1")]⟩, [], token⟩

end Collated

/-- Application 1 is shown roles of other applications, with every collation and every cipher. -/
theorem unrelatedGET_leaks : ¬ ∃ (_ : Collating) (C : Crypto),
    ReadIsolated C .unrelatedGET (askUnrelated (tokenOf C [0x02])) := by
  rintro ⟨_, C, h⟩
  have htok : tokenID C (tokenOf C [0x02]) = some 1 :=
    tokenID_tokenOf C [0x02] (by decide) (by decide)
  have hform : ¬ ReadEndpoint.BadForm (askUnrelated (tokenOf C [0x02])) .unrelatedGET :=
    fun hbad => hbad.2 rfl
  have hiso : Isolates 1 (ReadEndpoint.read (askUnrelated (tokenOf C [0x02])) 1 .unrelatedGET) := by
    intro my db db' hagree
    have hrun := h.1 1 (by decide) htok my db db' hagree
    rwa [handler_read my db htok hform, handler_read my db' htok hform] at hrun
  obtain ⟨-, -, hlimit, -⟩ := (isolates_unrelated_iff 1 _ _ _ _).mp hiso
  have hzero : (askUnrelated (tokenOf C [0x02])).page.limit = 0 := by
    show ((Util.Request.mk none [("resource_id", "1")]).int? "limit").getD 0 = 0
    decide
  rw [hzero] at hlimit
  exact absurd hlimit (by decide)

end Doodle.Rbac
