/-
  The document of an interface in the table `variable`: what `interfaceRegister.POST` of
  `manager/interface.go` leaves there for a request, whatever the order in which `addVariable`
  ranges over the field maps, and what the same request leaves when it is sent again.

  A list of fields is one order of `range`; `Reordered` relates two orders of the same maps, at
  every depth.

  * `fieldRows_perm`: the rows of a tree of fields are the same in any order.
  * `storesTree_iff`: the rows of an interface are those of the document exactly when the service
    is there and the query after a duplicate entry finds the row. It does for a path that reads as
    itself between quotes and a row whose state is a bool.
-/
import Doodle.Manager.Register

namespace Doodle.Manager.Register

open Doodle.Lib Doodle.Go

/-! ## Orders of the field maps -/

/-- The same fields, ranged over in another order. -/
inductive Reordered : List Field → List Field → Prop where
  | nil : Reordered [] []
  | cons (name type : String) (required : Bool) (comment : String) {c c' fs fs' : List Field} :
      Reordered c c' → Reordered fs fs' →
      Reordered (.mk name type required comment c :: fs) (.mk name type required comment c' :: fs')
  | swap (f g : Field) (fs : List Field) : Reordered (f :: g :: fs) (g :: f :: fs)
  | trans {fs₁ fs₂ fs₃ : List Field} : Reordered fs₁ fs₂ → Reordered fs₂ fs₃ → Reordered fs₁ fs₃

theorem Reordered.refl : ∀ fs, Reordered fs fs
  | [] => .nil
  | .mk name type required comment c :: fs =>
    .cons name type required comment (Reordered.refl c) (Reordered.refl fs)

/-- The same request, with the field maps of its document in another order. -/
structure SameRequest (b b' : Body) : Prop where
  rest : b' = { b with
    attr := { b.attr with request := b'.attr.request, response := b'.attr.response } }
  request : Reordered b.attr.request b'.attr.request
  response : Reordered b.attr.response b'.attr.response

theorem SameRequest.refl (b : Body) : SameRequest b b := ⟨rfl, .refl _, .refl _⟩

theorem fieldRows_cons (id postion level : Int) (parent : String) (f : Field) (fs : List Field) :
    fieldRows id postion level parent (f :: fs) =
      fieldRows id postion level parent [f] ++ fieldRows id postion level parent fs := by
  cases f
  simp only [fieldRows, List.append_nil, List.cons_append]

/-- The rows of a tree are the same whatever the order of its maps. -/
theorem fieldRows_perm (id postion : Int) {fs fs' : List Field} (h : Reordered fs fs') :
    ∀ level parent, (fieldRows id postion level parent fs).Perm
      (fieldRows id postion level parent fs') := by
  induction h with
  | nil => exact fun _ _ => .refl _
  | cons name type required comment hc hfs ihc ihfs =>
    intro level parent
    rw [fieldRows, fieldRows]
    exact ((ihc (level + 1) type).append (ihfs level parent)).cons _
  | swap f g fs =>
    intro level parent
    rw [fieldRows_cons, fieldRows_cons _ _ _ _ g fs, fieldRows_cons _ _ _ _ g (f :: fs),
      fieldRows_cons _ _ _ _ f fs]
    exact List.perm_append_comm_assoc _ _ _
  | trans h₁ h₂ ih₁ ih₂ => exact fun level parent => (ih₁ level parent).trans (ih₂ level parent)

theorem docRows_perm (id : Int) {b b' : Body} (h : SameRequest b b') :
    (docRows id b').Perm (docRows id b) :=
  ((fieldRows_perm id _ h.request 0 "").append (fieldRows_perm id _ h.response 0 "")).symm

/-! ## The property -/

section Spec

variable [Collating]

/-- The row of `k` has the id, and its variables are one row for each field of the document. -/
def TreeOf (k : IfaceKey) (b : Body) (id : Int) (db : Db) : Prop :=
  db.interface.Holds id (fold k) ∧ (db.varsOf id).Perm (docRows id b)

/-- Whatever the document and the orders its maps are ranged over in, a request for `k` stores its
    tree, and sending it again leaves the id and the rows. -/
def StoresTree (stray : IfaceKey → Db → Except Fault Int) (k : IfaceKey) (db : Db) : Prop :=
  ∀ b b₁ b₂, SameRequest b b₁ → SameRequest b b₂ → ∃ id,
    TreeOf k b id (exec stray (post k b₁) db).2 ∧
      TreeOf k b id (exec stray (post k b₂) (exec stray (post k b₁) db).2).2

/-- A database in which variables belong to ids given out before. -/
structure Registry where
  db : Db
  vars_lt : ∀ v ∈ db.vars, v.val.interfaceID < db.interface.next

/-- The query for the row `r` of `k` answers its id: the path reads as one that is equal to it and
    the state is a bool, or the path ends the literal and what the text then selects happens to be
    the id. -/
def Selects (stray : IfaceKey → Db → Except Fault Int) (k : IfaceKey) (db : Db) (r : IfaceRow) :
    Prop :=
  (∃ path, Rbac.readLiteral k.2.1 = some path ∧ weight path = weight k.2.1 ∧
      scanBool r.state ≠ none) ∨
    Rbac.readLiteral k.2.1 = none ∧ stray k db.skip = .ok r.id

/-! ## A request for a key that has a row -/

variable (stray : IfaceKey → Db → Except Fault Int) {owner : ServiceOwner} {k : IfaceKey} {db : Db}
  {r : IfaceRow}

/-- The query changes nothing. -/
theorem serve_findInterface_snd : (serve stray (.findInterface k) db).2 = db := by
  cases hpath : Rbac.readLiteral k.2.1 with
  | none => simp only [serve, hpath]
  | some path =>
    cases hfind : db.find (k.1, path, k.2.2) with
    | none => simp only [serve, hpath, hfind]
    | some r => cases hs : scanBool r.state <;> simp only [serve, hpath, hfind, hs]

theorem selects_iff (hr : Ready owner k db) (hm : r ∈ db.interface.rows)
    (hk : ifaceSchema.key r = fold k) : Selects stray k db r ↔
      exec stray (ask (.findInterface k)) db.skip = (.ok r.id, db.skip) := by
  constructor
  · rintro (⟨path, hpath, hw, hs⟩ | ⟨hpath, hstray⟩)
    · have hfold : ifaceSchema.key r = fold (k.1, path, k.2.2) := by rw [hk, fold, fold, hw]
      have hready : Ready owner (k.1, path, k.2.2) db.skip := ⟨hr.service, (ready_skip hr).vars_lt⟩
      have hfind := find_of_key hready hm hfold
      obtain ⟨s, hs⟩ := Option.ne_none_iff_exists'.mp hs
      rw [exec_ask]
      simp only [serve, hpath, hfind, hs]
    · rw [exec_ask]
      simp only [serve, hpath, hstray]
  · intro h
    rw [exec_ask] at h
    cases hpath : Rbac.readLiteral k.2.1 with
    | none =>
      simp only [serve, hpath, Prod.mk.injEq, and_true] at h
      exact .inr ⟨hpath, h⟩
    | some path =>
      cases hfind : db.skip.find (k.1, path, k.2.2) with
      | none =>
        simp only [serve, hpath, hfind] at h
        cases h
      | some r' =>
        cases hs : scanBool r'.state with
        | none =>
          simp only [serve, hpath, hfind, hs] at h
          cases h
        | some s =>
          simp only [serve, hpath, hfind, hs, Prod.mk.injEq, Except.ok.injEq, and_true] at h
          -- the row that was found has the id of `r`, so it is `r`
          have hkey := List.find?_some hfind
          simp only [Bool.and_eq_true, beq_iff_eq] at hkey
          obtain rfl := db.interface.eq_of_id (List.mem_of_find?_eq_some hfind) hm h
          refine .inl ⟨path, hpath, ?_, by simp [hs]⟩
          exact congrArg (fun k : IfaceKey => k.2.1) (hkey.1.symm.trans hk)

/-- The row and its variables are still there. -/
def Kept (r : IfaceRow) (db db' : Db) : Prop :=
  r ∈ db'.interface.rows ∧ db'.varsOf r.id = db.varsOf r.id

/-- Variables of another interface that go or come do not count. -/
theorem varsOf_of_other {id id' : Int} (hne : id' ≠ id) {t : Table ifaceSchema}
    {new : List VariableRow} (hnew : ∀ v ∈ new, v.val.interfaceID = id') (n : Int) :
    Db.varsOf ⟨db.service, t, (db.vars.filter fun v => !(v.val.interfaceID == id')) ++ new, n⟩ id =
      db.varsOf id := by
  have hnone : (new.map fun v => v.val).filter (fun v => v.interfaceID == id) = [] := by
    rw [List.filter_eq_nil_iff]
    intro v hv
    obtain ⟨w, hw, rfl⟩ := List.mem_map.mp hv
    simpa [hnew w hw] using hne
  have hold : ((db.vars.filter fun v => !(v.val.interfaceID == id')).map fun v => v.val).filter
      (fun v => v.interfaceID == id) = db.varsOf id := by
    rw [Db.varsOf, List.filter_map, List.filter_map, List.filter_filter]
    congr 1
    refine List.filter_congr fun v _ => ?_
    by_cases hid : v.val.interfaceID = id
    · simp [hid, Ne.symm hne]
    · simp [hid]
  rw [Db.varsOf, List.map_append, List.filter_append, hnone, List.append_nil, hold]

/-- The update of another row fails, or it leaves the row and its variables alone. -/
theorem updateExisting_other {id : Int} (hne : id ≠ r.id) (b : Body)
    (hfind : exec stray (ask (.findInterface k)) db = (.ok id, db)) (hm : r ∈ db.interface.rows) :
    exec stray (updateExisting k b) db = (.error .duplicate, db) ∨
      ∃ t, r ∈ t.rows ∧ exec stray (updateExisting k b) db = (.ok id, ⟨db.service, t,
        db.vars.filter fun v => !(v.val.interfaceID == id), db.nextVar⟩) := by
  cases ht : db.interface.update (fun r => r.id == id) (fun r => b.row k r.id) (fun _ => rfl) with
  | none =>
    have hask : exec stray (ask (.updateInterface id k b)) db = (.error .duplicate, db) := by
      rw [exec_ask]
      simp only [serve, ht]
    refine .inl ?_
    rw [updateExisting, exec_bind stray hfind, exec_bind_error stray hask]
  | some t =>
    refine .inr ⟨t, ?_, exec_updateExisting_some stray hfind ht⟩
    rw [Table.update_rows ht]
    exact List.mem_map.mpr ⟨r, hm, if_neg (by simpa using hne.symm)⟩

/-- A request that does not come to its document leaves the row and its variables alone. -/
theorem kept_of_error (hr : Ready owner k db) (hm : r ∈ db.interface.rows) {b : Body} {f : Fault}
    (hins : exec stray (insertOrUpdate k (withOwner owner b)) db = (.error f, db.skip)) :
    Kept r db (exec stray (post k b) db).2 := by
  rw [exec_post stray hr b, exec_bind_error stray hins]
  exact ⟨hm, rfl⟩

/-- A request whose query does not find the row leaves the row and its variables alone, whether it
    fails or goes on with another id. -/
theorem kept_of_not_selects (hr : Ready owner k db) (hm : r ∈ db.interface.rows)
    (hk : ifaceSchema.key r = fold k) (hsel : ¬ Selects stray k db r) (b : Body) :
    Kept r db (exec stray (post k b) db).2 := by
  rw [selects_iff stray hr hm hk] at hsel
  have hins := exec_insertOrUpdate_of_key stray hm hk (withOwner owner b)
  cases hanswer : (serve stray (.findInterface k) db.skip).1 with
  | error e =>
    have hfind : exec stray (ask (.findInterface k)) db.skip = (.error e, db.skip) :=
      Prod.ext hanswer (serve_findInterface_snd stray)
    rw [updateExisting, exec_bind_error stray hfind] at hins
    exact kept_of_error stray hr hm hins
  | ok id =>
    have hfind : exec stray (ask (.findInterface k)) db.skip = (.ok id, db.skip) :=
      Prod.ext hanswer (serve_findInterface_snd stray)
    have hne : id ≠ r.id := by
      rintro rfl
      exact hsel hfind
    rcases updateExisting_other stray hne (withOwner owner b) hfind hm with
      hupdate | ⟨t, ht, hupdate⟩
    · exact kept_of_error stray hr hm (hins.trans hupdate)
    · obtain ⟨new, n, hdoc, hnew⟩ := exec_addDocument stray b id ⟨db.skip.service, t,
        db.skip.vars.filter fun v => !(v.val.interfaceID == id), db.skip.nextVar⟩
      have hown : ∀ v ∈ new, v.val.interfaceID = id := fun v hv =>
        interfaceID_of_mem_docRows (b := b) v.val (hnew ▸ List.mem_map_of_mem hv)
      rw [exec_post stray hr b, exec_bind stray (hins.trans hupdate), hdoc]
      exact ⟨ht, varsOf_of_other hne hown n⟩

/-- A request whose query finds the row stores its tree under the row's id. -/
theorem treeOf_of_selects (hr : Ready owner k db) (hm : r ∈ db.interface.rows)
    (hk : ifaceSchema.key r = fold k) (hsel : Selects stray k db r) {b b' : Body}
    (hb : SameRequest b b') : Ready owner k (exec stray (post k b') db).2 ∧
      TreeOf k b r.id (exec stray (post k b') db).2 := by
  obtain ⟨db1, hins, hfresh⟩ := exec_insertOrUpdate_of_found stray hr hm hk
    ((selects_iff stray hr hm hk).mp hsel) (withOwner owner b')
  obtain ⟨db', he, hready, hrow, hvars⟩ := post_of_fresh stray hr hins hfresh
  rw [he]
  exact ⟨hready, ⟨_, hrow, rfl, rfl⟩, hvars ▸ docRows_perm r.id hb⟩

/-- A request for a new key stores its tree, whatever its path. -/
theorem treeOf_of_new (hr : Ready owner k db)
    (hnone : ∀ r ∈ db.interface.rows, ifaceSchema.key r ≠ fold k) {b b' : Body}
    (hb : SameRequest b b') : Ready owner k (exec stray (post k b') db).2 ∧
      TreeOf k b db.interface.next (exec stray (post k b') db).2 := by
  obtain ⟨db1, hins, hfresh⟩ := exec_insertOrUpdate_of_new stray hr hnone (withOwner owner b')
  obtain ⟨db', he, hready, hrow, hvars⟩ := post_of_fresh stray hr hins hfresh
  rw [he]
  exact ⟨hready, ⟨_, hrow, rfl, rfl⟩, hvars ▸ docRows_perm _ hb⟩

/-- The request sent again leaves the id and the rows, also when its query finds no row. -/
theorem treeOf_again (hr : Ready owner k db) {b b' : Body} {id : Int} (h : TreeOf k b id db)
    (hb : SameRequest b b') : TreeOf k b id (exec stray (post k b') db).2 := by
  obtain ⟨⟨r, hm, rfl, hk⟩, hvars⟩ := h
  by_cases hsel : Selects stray k db r
  · exact (treeOf_of_selects stray hr hm hk hsel hb).2
  · obtain ⟨hm', hvars'⟩ := kept_of_not_selects stray hr hm hk hsel b'
    exact ⟨⟨r, hm', rfl, hk⟩, hvars'.symm ▸ hvars⟩

/-- Without its service a request fails before it writes. -/
theorem exec_post_of_no_service (h : db.service.find? (fun p => p.id == k.1) = none) (b : Body) :
    (exec stray (post k b) db).2 = db := by
  have hconn : exec stray (ask .connect) db = (.ok (), db) := rfl
  have hservice : exec stray (ask (.service k.1)) db = (.error .notFound, db) := by
    rw [exec_ask]
    simp only [serve, h]
  rw [post, exec_bind stray hconn, exec_bind_error stray hservice]

/-! ## Exactly when the tree is stored -/

/-- A document with one field. -/
def oneField : Body :=
  { userBody 1 with attr := ⟨"", [.mk "ID" "int" true "" []], []⟩ }

/-- A request that leaves the variables of its key as they were does not store every document. -/
theorem not_storesTree (hkeep : ∀ b id, (exec stray (post k b) db).2.interface.Holds id (fold k) →
    db.interface.Holds id (fold k) ∧ (exec stray (post k b) db).2.varsOf id = db.varsOf id) :
    ¬ StoresTree stray k db := by
  intro h
  obtain ⟨id, ⟨hold, hrows⟩, -⟩ := h (userBody 1) _ _ (.refl _) (.refl _)
  obtain ⟨id', ⟨hold', hrows'⟩, -⟩ := h oneField _ _ (.refl _) (.refl _)
  obtain ⟨⟨r, hm, rfl, hk⟩, hvars⟩ := hkeep _ _ hold
  obtain ⟨⟨r', hm', rfl, hk'⟩, hvars'⟩ := hkeep _ _ hold'
  rw [db.interface.eq_of_key hm' hm (hk'.trans hk.symm)] at hrows' hvars'
  have hempty := (hvars ▸ hrows).length_eq
  have hone := (hvars' ▸ hrows').length_eq
  simp only [docRows, userBody, oneField, fieldRows, List.append_nil, List.length_nil,
    List.length_cons] at hempty hone
  omega

/-- Where every document is stored, the query finds the row. -/
theorem selects_of_storesTree (hr : Ready owner k db) (h : StoresTree stray k db)
    (hm : r ∈ db.interface.rows) (hk : ifaceSchema.key r = fold k) : Selects stray k db r := by
  by_contra hsel
  refine not_storesTree stray (fun b id hold => ?_) h
  obtain ⟨hm', hvars⟩ := kept_of_not_selects stray hr hm hk hsel b
  obtain ⟨r', hr', rfl, hk'⟩ := hold
  rw [(Table.eq_of_key _ hr' hm' (hk'.trans hk.symm) : r' = r)]
  exact ⟨⟨r, hm, rfl, hk⟩, hvars⟩

/-- The tree of every document is stored, and stored again, exactly when the service of `k` is there
    and the query finds the row that `k` has, if it has one. -/
theorem storesTree_iff (stray : IfaceKey → Db → Except Fault Int) (k : IfaceKey) (S : Registry) :
    StoresTree stray k S.db ↔ (∃ owner ∈ S.db.service, owner.id = k.1) ∧
      ∀ r ∈ S.db.interface.rows, ifaceSchema.key r = fold k → Selects stray k S.db r := by
  cases hservice : S.db.service.find? (fun p => p.id == k.1) with
  | none =>
    refine iff_of_false (not_storesTree stray fun b id hold => ?_) ?_
    · rw [exec_post_of_no_service stray hservice b] at hold ⊢
      exact ⟨hold, rfl⟩
    · rintro ⟨⟨owner, hmem, hid⟩, -⟩
      exact List.find?_eq_none.mp hservice owner hmem (beq_iff_eq.mpr hid)
  | some owner =>
    have hr : Ready owner k S.db := ⟨hservice, S.vars_lt⟩
    have howner : owner.id = k.1 := by simpa using List.find?_some hservice
    constructor
    · exact fun h => ⟨⟨owner, List.mem_of_find?_eq_some hservice, howner⟩, fun r hm hk =>
        selects_of_storesTree stray hr h hm hk⟩
    · rintro ⟨-, hsel⟩ b b₁ b₂ hb₁ hb₂
      rcases S.db.interface.key_cases (fold k) with ⟨r, hm, hk⟩ | hnone
      · obtain ⟨hready, htree⟩ := treeOf_of_selects stray hr hm hk (hsel r hm hk) hb₁
        exact ⟨r.id, htree, treeOf_again stray hready htree hb₂⟩
      · obtain ⟨hready, htree⟩ := treeOf_of_new stray hr hnone hb₁
        exact ⟨_, htree, treeOf_again stray hready htree hb₂⟩

/-- The interface with the path `a\b` is registered. -/
def backslashRegistry : Registry where
  db :=
    { service := [⟨1, "user", "user@doodle"⟩]
      interface := (Table.empty ifaceSchema).upsert (rowEntry (1, "a\\b", 0) (userBody 1))
      vars := []
      nextVar := 1 }
  vars_lt v hv := by cases hv

end Spec

/-- Between quotes the path is `a` and a backspace. Where this is another text, a new document never
    gets to the row. -/
theorem backslash_keeps_old_tree : ¬ ∃ (_ : Collating) (stray : _),
    weight "a\x08" ≠ weight "a\\b" ∧ StoresTree stray (1, "a\\b", 0) backslashRegistry.db := by
  rintro ⟨_, stray, hne, h⟩
  have hmem : (userBody 1).row (1, "a\\b", 0) 1 ∈ backslashRegistry.db.interface.rows :=
    List.mem_singleton.mpr rfl
  have hread : Rbac.readLiteral "a\\b" = some "a\x08" := by decide
  have hr : Ready ⟨1, "user", "user@doodle"⟩ (1, "a\\b", 0) backslashRegistry.db :=
    ⟨rfl, backslashRegistry.vars_lt⟩
  rcases selects_of_storesTree stray hr h hmem rfl with ⟨path, hpath, hw, -⟩ | ⟨hpath, -⟩
  · obtain rfl := Option.some.inj (hread.symm.trans hpath)
    exact hne hw
  · exact absurd (hread.symm.trans hpath) (by decide)

end Doodle.Manager.Register
