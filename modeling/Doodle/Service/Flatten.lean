/-
  What `merge` of `service/document.go` makes of embedded structs.

  An entry brings to its map itself and, when it is anonymous, what its children bring. `Shows` are
  the paths of labels of an entry, where an anonymous field has those of its children. The label
  may be the name of a field, or all there is of it but its children (`bare`).

  In an `Apart` map fields that two entries bring under one key are related. When related fields are
  alike, it does not matter which of them an assignment leaves, and `merge` keeps all paths. In a
  `Good` map no two entries bring one key. `flatten` is what should come out of such a map: the
  named fields of a level, with their children flattened. Two lists that are `Same` stand for the
  same maps.

  * `merge_yields`: what `merge` leaves of a map whose entries are alike where they meet.
  * `merge_flattens`: every computation ends and leaves no anonymous entry, and of a good map it
    leaves `flatten`.
-/
import Doodle.Service.Merge
import Mathlib.Data.List.Nodup
import Mathlib.Data.List.Pairwise

namespace Doodle.Service.Document

open Relation

/-! ## Levels -/

mutual

/-- The keys that an anonymous field brings to the level it stands on. -/
def Field.innerKeys : Field → List String
  | .mk _ _ _ _ true (some c) => levelKeys c
  | .mk _ _ _ _ true none => []
  | .mk _ _ _ _ false _ => []

def levelKeys : FieldMap → List String
  | [] => []
  | (k, f) :: fm => (k :: f.innerKeys) ++ levelKeys fm

end

mutual

def Field.Good : Field → Prop
  | .mk _ _ _ _ _ none => True
  | .mk _ _ _ _ _ (some c) => (levelKeys c).Nodup ∧ GoodAll c

def GoodAll : FieldMap → Prop
  | [] => True
  | (_, f) :: fm => f.Good ∧ GoodAll fm

end

/-- The keys of each level are distinct. -/
def Good (fm : FieldMap) : Prop := (levelKeys fm).Nodup ∧ GoodAll fm

/-! ## Flattening -/

mutual

/-- What becomes of an entry with the key `k`. -/
def Field.flatten (k : String) : Field → FieldMap
  | .mk _ _ _ _ true none => []
  | .mk _ _ _ _ true (some c) => flatten c
  | .mk name type required comment false none =>
    [(k, .mk name type required comment false none)]
  | .mk name type required comment false (some c) =>
    [(k, .mk name type required comment false (some (flatten c)))]

/-- The named fields of the level, with their children flattened. -/
def flatten : FieldMap → FieldMap
  | [] => []
  | (k, f) :: fm => f.flatten k ++ flatten fm

end

/-- The same entries, with the same entries below them, in any order. -/
inductive Same : FieldMap → FieldMap → Prop where
  | nil : Same [] []
  | cons (e : String × Field) {fm fm' : FieldMap} : Same fm fm' → Same (e :: fm) (e :: fm')
  | child (k : String) (f : Field) {c c' fm fm' : FieldMap} : Same c c' → Same fm fm' →
      Same ((k, f.withChild c) :: fm) ((k, f.withChild c') :: fm')
  | swap (e e' : String × Field) (fm : FieldMap) : Same (e :: e' :: fm) (e' :: e :: fm)
  | trans {fm₁ fm₂ fm₃ : FieldMap} : Same fm₁ fm₂ → Same fm₂ fm₃ → Same fm₁ fm₃

namespace Same

theorem refl (fm : FieldMap) : Same fm fm := by
  induction fm with
  | nil => exact .nil
  | cons e fm ih => exact .cons e ih

theorem symm {fm fm' : FieldMap} (h : Same fm fm') : Same fm' fm := by
  induction h with
  | nil => exact .nil
  | cons e _ ih => exact .cons e ih
  | child k f _ _ ihc ih => exact .child k f ihc ih
  | swap e e' fm => exact .swap e' e fm
  | trans _ _ ih₁ ih₂ => exact .trans ih₂ ih₁

theorem of_perm {fm fm' : FieldMap} (h : fm.Perm fm') : Same fm fm' := by
  induction h with
  | nil => exact .nil
  | cons e _ ih => exact .cons e ih
  | swap e e' fm => exact .swap e' e fm
  | trans _ _ ih₁ ih₂ => exact .trans ih₁ ih₂

theorem append_right {fm fm' : FieldMap} (h : Same fm fm') (l : FieldMap) :
    Same (fm ++ l) (fm' ++ l) := by
  induction h with
  | nil => exact .refl l
  | cons e _ ih => exact .cons e ih
  | child k f hc _ _ ih => exact .child k f hc ih
  | swap e e' fm => exact .swap e e' (fm ++ l)
  | trans _ _ ih₁ ih₂ => exact .trans ih₁ ih₂

end Same

section Field

variable {f : Field} (k : String) {c : FieldMap}

theorem flatten_of_anonymous (h : f.anonymous = true) :
    f.flatten k = flatten (f.child.getD []) := by
  obtain ⟨_, _, _, _, anonymous, child⟩ := f
  obtain rfl : anonymous = true := h
  cases child with
  | none => simp [Field.flatten, Field.child, flatten]
  | some c => simp [Field.flatten, Field.child]

theorem flatten_of_leaf (h : f.anonymous = false) (hc : f.child = none) :
    f.flatten k = [(k, f)] := by
  obtain ⟨_, _, _, _, anonymous, child⟩ := f
  obtain rfl : anonymous = false := h
  obtain rfl : child = none := hc
  simp [Field.flatten]

theorem flatten_of_child (h : f.anonymous = false) (hc : f.child = some c) :
    f.flatten k = [(k, f.withChild (flatten c))] := by
  obtain ⟨_, _, _, _, anonymous, child⟩ := f
  obtain rfl : anonymous = false := h
  obtain rfl : child = some c := hc
  simp [Field.flatten, Field.withChild]

theorem innerKeys_of_anonymous (h : f.anonymous = true) :
    f.innerKeys = levelKeys (f.child.getD []) := by
  obtain ⟨_, _, _, _, anonymous, child⟩ := f
  obtain rfl : anonymous = true := h
  cases child with
  | none => simp [Field.innerKeys, Field.child, levelKeys]
  | some c => simp [Field.innerKeys, Field.child]

theorem Field.Good.child (h : f.Good) (hc : f.child = some c) : Document.Good c := by
  obtain ⟨_, _, _, _, _, child⟩ := f
  obtain rfl : child = some c := hc
  simpa [Field.Good, Document.Good] using h

end Field

theorem levelKeys_eq (fm : FieldMap) :
    levelKeys fm = fm.flatMap fun e => e.1 :: e.2.innerKeys := by
  induction fm with
  | nil => rfl
  | cons e fm ih => rw [levelKeys, ih, List.flatMap_cons]

theorem goodAll_iff {fm : FieldMap} : GoodAll fm ↔ ∀ e ∈ fm, e.2.Good := by
  induction fm with
  | nil => simp [GoodAll]
  | cons e fm ih => simp [GoodAll, ih]

/-! ## What an entry shows -/

section Paths

variable {α : Type} (lab : String × Field → α)

/-- The paths of labels of an entry; an anonymous field has those of its children. -/
inductive Shows : String × Field → List α → Prop
  | own {e} : e.2.anonymous = false → Shows e [lab e]
  | inner {e e' p} : e.2.anonymous = false → e' ∈ e.2.child.getD [] → Shows e' p →
      Shows e (lab e :: p)
  | embedded {e e' p} : e.2.anonymous = true → e' ∈ e.2.child.getD [] → Shows e' p → Shows e p

def ShowsAll (fm : FieldMap) (p : List α) : Prop := ∃ e ∈ fm, Shows lab e p

variable {lab} {e : String × Field} {p : List α}

theorem shows_anonymous (ha : e.2.anonymous = true) :
    Shows lab e p ↔ ShowsAll lab (e.2.child.getD []) p := by
  constructor
  · rintro (h | ⟨h, -, -⟩ | ⟨-, he, hp⟩)
    · exact absurd (ha.symm.trans h) nofun
    · exact absurd (ha.symm.trans h) nofun
    · exact ⟨_, he, hp⟩
  · rintro ⟨e', he, hp⟩
    exact .embedded ha he hp

theorem shows_named (ha : e.2.anonymous = false) : Shows lab e p ↔
    ∃ q, p = lab e :: q ∧ (q = [] ∨ ShowsAll lab (e.2.child.getD []) q) := by
  constructor
  · rintro (h | ⟨-, he, hp⟩ | ⟨h, -, -⟩)
    · exact ⟨[], rfl, Or.inl rfl⟩
    · exact ⟨_, rfl, Or.inr ⟨_, he, hp⟩⟩
    · exact absurd (ha.symm.trans h) nofun
  · rintro ⟨q, rfl, rfl | ⟨e', he, hp⟩⟩
    · exact .own ha
    · exact .inner ha he hp

theorem Shows.ne_nil (h : Shows lab e p) : p ≠ [] := by
  induction h with
  | own _ => exact List.cons_ne_nil _ _
  | inner _ _ _ _ => exact List.cons_ne_nil _ _
  | embedded _ _ _ ih => exact ih

end Paths

/-! ## What an entry brings -/

/-- What an entry brings to its map: itself and, when it is anonymous, what its children bring. -/
inductive Brings : String × Field → String × Field → Prop
  | own (e) : Brings e e
  | inner {e e' x} : e.2.anonymous = true → e' ∈ e.2.child.getD [] → Brings e' x → Brings e x

/-- What two entries of the map bring under one key is related. -/
def Levels (R : String × Field → String × Field → Prop) (fm : FieldMap) : Prop :=
  ∀ e ∈ fm, ∀ e' ∈ fm, e.1 ≠ e'.1 → ∀ x y, Brings e x → Brings e' y → x.1 = y.1 → R x y

/-- The same at any depth. -/
def Apart (R : String × Field → String × Field → Prop) (fm : FieldMap) : Prop :=
  Deep (Levels R) fm

theorem brings_named {e x : String × Field} (ha : e.2.anonymous = false) (h : Brings e x) :
    x = e := by
  cases h with
  | own => rfl
  | inner h _ _ => exact absurd (ha.symm.trans h) nofun

theorem Brings.shows {α : Type} {lab : String × Field → α} {e x : String × Field}
    (h : Brings e x) {p : List α} (hp : Shows lab x p) : Shows lab e p := by
  induction h with
  | own _ => exact hp
  | inner ha he _ ih => exact .embedded ha he (ih hp)

theorem Brings.mem_level {e x : String × Field} (h : Brings e x) : x.1 ∈ e.1 :: e.2.innerKeys := by
  induction h with
  | own _ => exact List.mem_cons_self
  | @inner e e' _ ha he _ ih =>
    refine List.mem_cons_of_mem _ ?_
    rw [innerKeys_of_anonymous ha, levelKeys_eq]
    exact List.mem_flatMap.mpr ⟨e', he, ih⟩

/-- In a good map no two entries bring one key. -/
theorem Good.apart {R : String × Field → String × Field → Prop} {fm : FieldMap} (h : Good fm) :
    Apart R fm := by
  induction fm using tree_induction with
  | step fm ih =>
    refine .intro (fun e he e' he' hne x y hx hy hxy => ?_) fun e he c hc =>
      ih e he c hc ((goodAll_iff.mp h.2 e he).child hc)
    have hlevel := h.1
    rw [levelKeys_eq, List.nodup_flatMap] at hlevel
    have hsymm : Std.Symm fun e e' : String × Field =>
        List.Disjoint (e.1 :: e.2.innerKeys) (e'.1 :: e'.2.innerKeys) :=
      ⟨fun _ _ hd => List.disjoint_symm hd⟩
    have hdisjoint := hlevel.2.forall he he' fun heq => hne (congrArg Prod.fst heq)
    exact absurd (hxy ▸ hy.mem_level) (hdisjoint hx.mem_level)

/-- In a map without anonymous entries each entry brings its own key only. -/
theorem apart_of_clean {R : String × Field → String × Field → Prop} {fm : FieldMap}
    (h : CleanAll fm) : Apart R fm := by
  induction fm using tree_induction with
  | step fm ih =>
    have hclean := cleanAll_iff.mp h
    refine .intro (fun e he e' he' hne x y hx hy hxy => ?_) fun e he c hc =>
      ih e he c hc (clean_iff.mp (hclean e he).2 c hc)
    rw [brings_named (hclean e he).1 hx, brings_named (hclean e' he').1 hy] at hxy
    exact absurd hxy hne

/-! ## A promotion -/

theorem mem_child {f : Field} {e : String × Field} :
    e ∈ f.child.getD [] ↔ ∃ c, f.child = some c ∧ e ∈ c := by
  cases f.child with
  | none => simp
  | some c => simp

theorem mem_put_self (k : String) (f : Field) (fm : FieldMap) : (k, f) ∈ put k f fm := by
  induction fm with
  | nil => exact List.mem_cons_self
  | cons e fm ih =>
    rw [put]
    split
    · exact List.mem_cons_self
    · exact List.mem_cons_of_mem _ ih

theorem mem_put_of_ne {k : String} {f : Field} {fm : FieldMap} {e : String × Field} (he : e ∈ fm)
    (hne : e.1 ≠ k) : e ∈ put k f fm := by
  induction fm with
  | nil => cases he
  | cons e' fm ih =>
    rw [put]
    rcases List.mem_cons.mp he with rfl | he
    · rw [if_neg hne]
      exact List.mem_cons_self
    · split
      · exact List.mem_cons_of_mem _ he
      · exact List.mem_cons_of_mem _ (ih he)

theorem mem_putAll_of_not_mem {m fm : FieldMap} {e : String × Field} (he : e ∈ fm)
    (hk : e.1 ∉ keys m) : e ∈ putAll m fm := by
  induction m generalizing fm with
  | nil => exact he
  | cons e' m ih =>
    obtain ⟨hne, hrest⟩ := not_or.mp (mt List.mem_cons.mpr hk)
    exact ih (mem_put_of_ne he hne) hrest

theorem mem_putAll_of_mem {m fm : FieldMap} (hn : (keys m).Nodup) {e : String × Field}
    (he : e ∈ m) : e ∈ putAll m fm := by
  induction m generalizing fm with
  | nil => cases he
  | cons e' m ih =>
    obtain ⟨hnot, hrest⟩ := List.nodup_cons.mp hn
    rw [putAll_cons]
    rcases List.mem_cons.mp he with rfl | he
    · exact mem_putAll_of_not_mem (mem_put_self _ _ _) hnot
    · exact ih hrest he

section Promote

variable {fm : FieldMap} {k : String} {f : Field}

/-- An entry after the promotion is a child, or was there before. -/
theorem origin_promoted {e : String × Field} (h : e ∈ promoted fm k f) :
    e ∈ f.child.getD [] ∨ e ∈ fm ∧ e.1 ≠ k := by
  refine (mem_putAll h).imp_right fun h => ?_
  obtain ⟨he, hne⟩ := List.mem_filter.mp h
  exact ⟨he, of_decide_eq_true hne⟩

theorem mem_promoted_of_not_mem {e : String × Field} (he : e ∈ fm) (hne : e.1 ≠ k)
    (hk : e.1 ∉ keys (f.child.getD [])) : e ∈ promoted fm k f :=
  mem_putAll_of_not_mem (List.mem_filter.mpr ⟨he, decide_eq_true hne⟩) hk

theorem nodup_child {fm : FieldMap} (h : IsMap fm) {e : String × Field} (he : e ∈ fm) :
    (keys (e.2.child.getD [])).Nodup := by
  cases hc : e.2.child with
  | none => exact List.nodup_nil
  | some c => exact (h.child he hc).here

theorem apart_promoted {R : String × Field → String × Field → Prop} (h : Apart R fm)
    (hl : fm.lookup k = some f) (ha : f.anonymous = true) : Apart R (promoted fm k f) := by
  have hmem := mem_of_lookup hl
  refine .intro (fun e he e' he' hne x y hx hy hxy => ?_) (below_promoted h hl)
  rcases origin_promoted he with hc | ⟨hf, hk⟩ <;>
    rcases origin_promoted he' with hc' | ⟨hf', hk'⟩
  · obtain ⟨c, hchild, hc⟩ := mem_child.mp hc
    rw [hchild] at hc'
    exact (h.child hmem hchild).here e hc e' hc' hne x y hx hy hxy
  · exact h.here _ hmem e' hf' (Ne.symm hk') x y (.inner ha hc hx) hy hxy
  · exact h.here e hf _ hmem hk x y hx (.inner ha hc' hy) hxy
  · exact h.here e hf e' hf' hne x y hx hy hxy

end Promote

/-! ## Maps whose entries are alike where they meet -/

section Alike

variable {α τ : Type} (tag : String × Field → τ) (lab : String × Field → α)

/-- Both entries have one tag and show the same. -/
structure Alike (x y : String × Field) : Prop where
  tag : tag x = tag y
  shows : ∀ p, Shows lab x p ↔ Shows lab y p

/-- What is left of a map shows the same, and is alike to what the map's entries bring. -/
structure Yields (fm fm' : FieldMap) : Prop where
  kept : ∀ p, ShowsAll lab fm p → ShowsAll lab fm' p
  origin : ∀ e' ∈ fm', ∀ x', Brings e' x' →
    ∃ e ∈ fm, ∃ x, Brings e x ∧ x.1 = x'.1 ∧ Alike tag lab x x'

/-- The same of the range over the children, entry by entry. -/
structure Merged (fm fm' : FieldMap) : Prop where
  kept : ∀ e ∈ fm, ∃ e' ∈ fm', Alike tag lab e e'
  origin : ∀ e' ∈ fm', ∃ e ∈ fm, e.1 = e'.1 ∧
    ∀ x', Brings e' x' → ∃ x, Brings e x ∧ x.1 = x'.1 ∧ Alike tag lab x x'

/-- Neither the tag nor the label is about the children. -/
structure Steady : Prop where
  tag : ∀ k (f : Field) c c', f.child = some c → tag (k, f.withChild c') = tag (k, f)
  lab : ∀ k (f : Field) c c', f.child = some c → lab (k, f.withChild c') = lab (k, f)

variable {tag lab} {fm fm' : FieldMap}

theorem Alike.refl (x : String × Field) : Alike tag lab x x := ⟨rfl, fun _ => Iff.rfl⟩

theorem Alike.symm {x y : String × Field} (h : Alike tag lab x y) : Alike tag lab y x :=
  ⟨h.tag.symm, fun p => (h.shows p).symm⟩

theorem Alike.trans {x y z : String × Field} (h : Alike tag lab x y) (h' : Alike tag lab y z) :
    Alike tag lab x z :=
  ⟨h.tag.trans h'.tag, fun p => (h.shows p).trans (h'.shows p)⟩

theorem Yields.shows (h : Yields tag lab fm fm') (p : List α) :
    ShowsAll lab fm' p ↔ ShowsAll lab fm p := by
  refine ⟨fun ⟨e', he', hp⟩ => ?_, h.kept p⟩
  obtain ⟨e, he, x, hx, -, halike⟩ := h.origin e' he' e' (.own e')
  exact ⟨e, he, hx.shows ((halike.shows p).mpr hp)⟩

theorem Yields.trans {fm'' : FieldMap} (h : Yields tag lab fm fm') (h' : Yields tag lab fm' fm'') :
    Yields tag lab fm fm'' := by
  refine ⟨fun p hp => h'.kept p (h.kept p hp), fun e'' he'' x'' hx'' => ?_⟩
  obtain ⟨e', he', x', hx', hk', halike'⟩ := h'.origin e'' he'' x'' hx''
  obtain ⟨e, he, x, hx, hk, halike⟩ := h.origin e' he' x' hx'
  exact ⟨e, he, x, hx, hk.trans hk', halike.trans halike'⟩

theorem Merged.yields (h : Merged tag lab fm fm') : Yields tag lab fm fm' := by
  refine ⟨fun p ⟨e, he, hp⟩ => ?_, fun e' he' x' hx' => ?_⟩
  · obtain ⟨e', he', halike⟩ := h.kept e he
    exact ⟨e', he', (halike.shows p).mp hp⟩
  · obtain ⟨e, he, -, hbrings⟩ := h.origin e' he'
    exact ⟨e, he, hbrings x' hx'⟩

theorem Merged.levels (h : Merged tag lab fm fm') (hl : Levels (Alike tag lab) fm) :
    Levels (Alike tag lab) fm' := by
  intro e he e' he' hne x y hx hy hxy
  obtain ⟨e₀, he₀, hk, hbrings⟩ := h.origin e he
  obtain ⟨e₀', he₀', hk', hbrings'⟩ := h.origin e' he'
  obtain ⟨x₀, hx₀, hkx, hax⟩ := hbrings x hx
  obtain ⟨y₀, hy₀, hky, hay⟩ := hbrings' y hy
  have hne₀ : e₀.1 ≠ e₀'.1 := fun heq => hne (hk.symm.trans (heq.trans hk'))
  exact hax.symm.trans ((hl e₀ he₀ e₀' he₀' hne₀ x₀ y₀ hx₀ hy₀
    (hkx.trans (hxy.trans hky.symm))).trans hay)

theorem yields_promoted {k : String} {f : Field} (h : Apart (Alike tag lab) fm) (hm : IsMap fm)
    (hl : fm.lookup k = some f) (ha : f.anonymous = true) :
    Yields tag lab fm (promoted fm k f) := by
  have hmem := mem_of_lookup hl
  have hchild : ∀ e ∈ f.child.getD [], e ∈ promoted fm k f := fun e he =>
    mem_putAll_of_mem (nodup_child hm hmem) he
  refine ⟨fun p ⟨e, he, hp⟩ => ?_, fun e' he' x' hx' => ?_⟩
  · by_cases hk : e.1 = k
    · have heq := lookup_of_mem hm.here he
      rw [hk, hl, Option.some.injEq] at heq
      obtain ⟨e', he', hp'⟩ := (shows_anonymous (heq ▸ ha)).mp hp
      exact ⟨e', hchild e' (heq ▸ he'), hp'⟩
    · by_cases hin : e.1 ∈ keys (f.child.getD [])
      · -- the entry is replaced, by one that shows the same
        obtain ⟨e', he', hkey⟩ := List.mem_map.mp hin
        have halike := h.here e he _ hmem hk e e' (.own e) (.inner ha he' (.own e')) hkey.symm
        exact ⟨e', hchild e' he', (halike.shows p).mp hp⟩
      · exact ⟨e, mem_promoted_of_not_mem he hk hin, hp⟩
  · rcases origin_promoted he' with hc | ⟨hf, -⟩
    · exact ⟨_, hmem, x', .inner ha hc hx', rfl, .refl _⟩
    · exact ⟨e', hf, x', hx', rfl, .refl _⟩

theorem yields_clear {todo : List String} {ok ok' : Bool} (h : Clear todo fm ok fm' ok')
    (hm : IsMap fm) (ha : Apart (Alike tag lab) fm) :
    Yields tag lab fm fm' ∧ Apart (Alike tag lab) fm' := by
  induction h with
  | done _ => exact ⟨⟨fun _ hp => hp, fun e he x hx => ⟨e, he, x, hx, rfl, .refl _⟩⟩, ha⟩
  | keep _ _ _ _ ih => exact ih hm ha
  | promote _ hl hanon _ _ _ ih =>
    have hstep := yields_promoted ha hm hl hanon
    obtain ⟨hrest, hapart⟩ := ih (isMap_promoted hm hl) (apart_promoted ha hl hanon)
    exact ⟨hstep.trans hrest, hapart⟩

theorem alike_withChild (hs : Steady tag lab) {k : String} {f : Field} {c c' : FieldMap}
    (hc : f.child = some c) (h : ∀ p, ShowsAll lab c' p ↔ ShowsAll lab c p) :
    Alike tag lab (k, f) (k, f.withChild c') := by
  refine ⟨(hs.tag k f c c' hc).symm, fun p => ?_⟩
  have hchild : (f.withChild c').child.getD [] = c' := by rw [child_withChild, Option.getD_some]
  have hold : f.child.getD [] = c := by rw [hc, Option.getD_some]
  cases ha : f.anonymous with
  | true =>
    have ha' : (f.withChild c').anonymous = true := by rw [anonymous_withChild, ha]
    rw [shows_anonymous (e := (k, f)) ha, shows_anonymous (e := (k, f.withChild c')) ha', hchild,
      hold, h p]
  | false =>
    have ha' : (f.withChild c').anonymous = false := by rw [anonymous_withChild, ha]
    rw [shows_named (e := (k, f)) ha, shows_named (e := (k, f.withChild c')) ha', hchild, hold,
      hs.lab k f c c' hc]
    simp only [h]

theorem Merged.cons {k : String} {f f' : Field} (h : Merged tag lab fm fm')
    (halike : Alike tag lab (k, f) (k, f')) (horigin : ∀ x', Brings (k, f') x' →
      ∃ x, Brings (k, f) x ∧ x.1 = x'.1 ∧ Alike tag lab x x') :
    Merged tag lab ((k, f) :: fm) ((k, f') :: fm') := by
  refine ⟨List.forall_mem_cons.mpr ⟨⟨_, List.mem_cons_self, halike⟩, fun e he => ?_⟩,
    List.forall_mem_cons.mpr ⟨⟨_, List.mem_cons_self, rfl, horigin⟩, fun e' he' => ?_⟩⟩
  · obtain ⟨e', he', h'⟩ := h.kept e he
    exact ⟨e', List.mem_cons_of_mem _ he', h'⟩
  · obtain ⟨e, he, h'⟩ := h.origin e' he'
    exact ⟨e, List.mem_cons_of_mem _ he, h'⟩

mutual

/-- Whatever `merge` may leave of a map whose entries are alike where they meet shows the same. -/
theorem merge_yields (hs : Steady tag lab) {fm fm' : FieldMap} (h : Merge fm fm') (hm : IsMap fm)
    (ha : Apart (Alike tag lab) fm) : Yields tag lab fm fm' := by
  match h with
  | .stop hclear hall =>
    obtain ⟨-, rfl, -⟩ := clear_false hclear rfl
    exact (mergeAll_yields hs hall (fun e he c hc => hm.child he hc)
      fun e he c hc => ha.child he hc).yields
  | .again hclear hall hrest =>
    obtain ⟨hyields, hapart⟩ := yields_clear hclear hm ha
    have hcleared := isMap_clear hclear hm
    have hmap := fun e he c hc => hcleared.child (e := e) he (c := c) hc
    have hclean := mergeAll_clean hall hmap
    have hmerged := mergeAll_yields hs hall hmap fun e he c hc => hapart.child he hc
    have hagain : Apart (Alike tag lab) _ := .intro (hmerged.levels hapart.here) fun e he c hc =>
      apart_of_clean (clean_iff.mp (hclean.clean e he).1 c hc)
    exact (hyields.trans hmerged.yields).trans
      (merge_yields hs hrest (hclean.isMap hcleared.here) hagain)

theorem mergeAll_yields (hs : Steady tag lab) {fm fm' : FieldMap} (h : MergeAll fm fm')
    (hm : ∀ e ∈ fm, ∀ c, e.2.child = some c → IsMap c)
    (ha : ∀ e ∈ fm, ∀ c, e.2.child = some c → Apart (Alike tag lab) c) :
    Merged tag lab fm fm' := by
  match h with
  | .nil => exact ⟨fun e he => absurd he List.not_mem_nil, fun e he => absurd he List.not_mem_nil⟩
  | .leaf _ hall =>
    have hrest := mergeAll_yields hs hall (fun e he => hm e (List.mem_cons_of_mem _ he))
      fun e he => ha e (List.mem_cons_of_mem _ he)
    exact hrest.cons (.refl _) fun x hx => ⟨x, hx, rfl, .refl _⟩
  | @MergeAll.inner k f c c' _ _ hc hmerge hall =>
    have hrest := mergeAll_yields hs hall (fun e he => hm e (List.mem_cons_of_mem _ he))
      fun e he => ha e (List.mem_cons_of_mem _ he)
    have hinner := merge_yields hs hmerge (hm _ List.mem_cons_self c hc)
      (ha _ List.mem_cons_self c hc)
    have halike : Alike tag lab (k, f) (k, f.withChild c') := alike_withChild hs hc hinner.shows
    refine hrest.cons halike fun x' hx' => ?_
    cases hx' with
    | own => exact ⟨_, .own _, rfl, halike⟩
    | inner hanon he hx =>
      simp only [anonymous_withChild, child_withChild, Option.getD_some] at hanon he
      obtain ⟨e, he, x, hbrings, hkey, halike⟩ := hinner.origin _ he _ hx
      refine ⟨x, .inner hanon ?_ hbrings, hkey, halike⟩
      simpa only [hc, Option.getD_some] using he

end

end Alike

/-! ## Maps that show the same -/

/-- The field without its children. -/
def Field.bare : Field → Field
  | .mk name type required comment anonymous child =>
    .mk name type required comment anonymous (child.map fun _ => [])

/-- All there is of an entry but its children. -/
def bare (e : String × Field) : String × Field := (e.1, e.2.bare)

theorem key_of_bare {e e' : String × Field} (h : bare e = bare e') : e.1 = e'.1 :=
  (Prod.ext_iff.mp h).1

theorem steady_bare : Steady bare bare := by
  have h : ∀ k (f : Field) c c', f.child = some c → bare (k, f.withChild c') = bare (k, f) := by
    rintro k ⟨_, _, _, _, _, child⟩ c c' (rfl : child = some c)
    rfl
  exact ⟨h, h⟩

theorem same_of_bare {e e' : String × Field} (h : bare e = bare e')
    (hc : Same (e.2.child.getD []) (e'.2.child.getD [])) : Same [e] [e'] := by
  obtain ⟨k, name, type, required, comment, anonymous, child⟩ := e
  obtain ⟨k', name', type', required', comment', anonymous', child'⟩ := e'
  simp only [bare, Field.bare, Prod.mk.injEq, Field.mk.injEq] at h
  obtain ⟨rfl, rfl, rfl, rfl, rfl, rfl, hchild⟩ := h
  cases child with
  | none =>
    cases child' with
    | none => exact .refl _
    | some c' => cases hchild
  | some c =>
    cases child' with
    | none => cases hchild
    | some c' => exact .child _ (.mk name type required comment anonymous (some c)) hc .nil

/-- Maps are the same when each entry of one is in the other. -/
theorem same_of_mem : ∀ {fm fm' : FieldMap}, (keys fm).Nodup → (keys fm').Nodup →
    (∀ e ∈ fm, ∃ e' ∈ fm', e.1 = e'.1 ∧ Same [e] [e']) → (∀ e' ∈ fm', e'.1 ∈ keys fm) →
      Same fm fm'
  | [], fm', _, _, _, hback => by
    cases fm' with
    | nil => exact .nil
    | cons e' fm' => exact absurd (hback e' List.mem_cons_self) List.not_mem_nil
  | e :: fm, fm', hn, hn', hto, hback => by
    obtain ⟨hnot, hn⟩ := List.nodup_cons.mp hn
    obtain ⟨⟨e', he', hkey, hsame⟩, hto⟩ := List.forall_mem_cons.mp hto
    obtain ⟨pre, post, rfl⟩ := List.append_of_mem he'
    have hperm : (pre ++ e' :: post).Perm (e' :: (pre ++ post)) := List.perm_middle
    obtain ⟨hnot', hn'⟩ := List.nodup_cons.mp ((hperm.map Prod.fst).nodup hn')
    have hrest : Same fm (pre ++ post) := by
      refine same_of_mem hn hn' (fun x hx => ?_) fun x' hx' => ?_
      · obtain ⟨x', hx', hk, h⟩ := hto x hx
        refine ⟨x', (List.mem_cons.mp (hperm.subset hx')).resolve_left fun heq => ?_, hk, h⟩
        exact hnot (List.mem_map.mpr ⟨x, hx, hk.trans ((congrArg Prod.fst heq).trans hkey.symm)⟩)
      · have hkeys := hback x' (hperm.symm.subset (List.mem_cons_of_mem _ hx'))
        refine (List.mem_cons.mp hkeys).resolve_left fun heq => ?_
        exact hnot' (List.mem_map.mpr ⟨x', hx', heq.trans hkey⟩)
    exact ((hsame.append_right fm).trans (.cons e' hrest)).trans (.of_perm hperm.symm)

theorem not_showsAll_nil {α : Type} {lab : String × Field → α} {fm : FieldMap} :
    ¬ ShowsAll lab fm [] := fun ⟨_, _, h⟩ => h.ne_nil rfl

section Clean

variable {fm fm' : FieldMap}

/-- Only the entry itself shows paths that begin with its label. -/
theorem showsAll_cons (hm : IsMap fm) (hc : CleanAll fm) {e : String × Field} (he : e ∈ fm)
    (p : List (String × Field)) :
    ShowsAll bare fm (bare e :: p) ↔ p = [] ∨ ShowsAll bare (e.2.child.getD []) p := by
  have hclean := cleanAll_iff.mp hc
  constructor
  · rintro ⟨e', he', h⟩
    obtain ⟨q, heq, hq⟩ := (shows_named (hclean e' he').1).mp h
    obtain ⟨hbare, rfl⟩ := List.cons.inj heq
    have hkey := key_of_bare hbare
    have hfield := lookup_of_mem hm.here he
    rw [hkey, lookup_of_mem hm.here he', Option.some.injEq] at hfield
    exact hfield ▸ hq
  · exact fun h => ⟨e, he, (shows_named (hclean e he).1).mpr ⟨p, rfl, h⟩⟩

/-- An entry of a map has its like in one that shows as much. -/
theorem exists_bare (hc : CleanAll fm') (h : ∀ p, ShowsAll bare fm p → ShowsAll bare fm' p)
    {e : String × Field} (he : e ∈ fm) (ha : e.2.anonymous = false) :
    ∃ e' ∈ fm', bare e = bare e' := by
  obtain ⟨e', he', hp⟩ := h [bare e] ⟨e, he, .own ha⟩
  obtain ⟨q, heq, -⟩ := (shows_named ((cleanAll_iff.mp hc) e' he').1).mp hp
  exact ⟨e', he', (List.cons.inj heq).1⟩

theorem child_of_bare {e e' : String × Field} (h : bare e = bare e') (hc : e.2.child = none) :
    e'.2.child = none := by
  obtain ⟨_, _, _, _, _, _, _⟩ := e
  obtain ⟨_, _, _, _, _, _, child'⟩ := e'
  cases child' with
  | none => rfl
  | some c' => simp_all [bare, Field.bare, Field.child]

/-- Maps without anonymous entries that show the same are the same. -/
theorem same_of_shows (hm : IsMap fm) (hc : CleanAll fm) (hm' : IsMap fm') (hc' : CleanAll fm')
    (h : ∀ p, ShowsAll bare fm p ↔ ShowsAll bare fm' p) : Same fm fm' := by
  induction fm using tree_induction generalizing fm' with
  | step fm ih =>
    have hclean := cleanAll_iff.mp hc
    have hclean' := cleanAll_iff.mp hc'
    refine same_of_mem hm.here hm'.here (fun e he => ?_) fun e' he' => ?_
    · obtain ⟨e', he', hbare⟩ := exists_bare hc' (fun p => (h p).mp) he (hclean e he).1
      refine ⟨e', he', key_of_bare hbare, same_of_bare hbare ?_⟩
      have hchild : ∀ p, ShowsAll bare (e.2.child.getD []) p ↔
          ShowsAll bare (e'.2.child.getD []) p := by
        intro p
        have hcons := h (bare e :: p)
        rw [showsAll_cons hm hc he] at hcons
        rw [hbare, showsAll_cons hm' hc' he'] at hcons
        by_cases hp : p = []
        · subst hp
          exact iff_of_false not_showsAll_nil not_showsAll_nil
        · simpa only [hp, false_or] using hcons
      cases hce : e.2.child with
      | none =>
        rw [child_of_bare hbare hce]
        exact .nil
      | some c =>
        rw [hce, Option.getD_some] at hchild
        refine ih e he c hce (hm.child he hce) (clean_iff.mp (hclean e he).2 c hce) ?_ ?_ hchild
        · cases hce' : e'.2.child with
          | none => exact .intro List.nodup_nil fun _ he => absurd he List.not_mem_nil
          | some c' => exact hm'.child he' hce'
        · cases hce' : e'.2.child with
          | none => exact trivial
          | some c' => exact clean_iff.mp (hclean' e' he').2 c' hce'
    · obtain ⟨e, he, hbare⟩ := exists_bare hc (fun p => (h p).mpr) he' (hclean' e' he').1
      exact List.mem_map.mpr ⟨e, he, (key_of_bare hbare).symm⟩

end Clean

/-! ## Flattened maps -/

theorem showsAll_append {α : Type} {lab : String × Field → α} (fm fm' : FieldMap) (p : List α) :
    ShowsAll lab (fm ++ fm') p ↔ ShowsAll lab fm p ∨ ShowsAll lab fm' p := by
  simp only [ShowsAll, List.mem_append, or_and_right, exists_or]

theorem showsAll_singleton {α : Type} {lab : String × Field → α} (e : String × Field)
    (p : List α) : ShowsAll lab [e] p ↔ Shows lab e p := by
  simp [ShowsAll]

/-- What `flatten` makes of some entries. -/
structure Flat (fm out : FieldMap) : Prop where
  keys : (keys out).Sublist (levelKeys fm)
  clean : CleanAll out
  shows : ∀ p, ShowsAll bare out p ↔ ShowsAll bare fm p
  below : GoodAll fm → ∀ e ∈ out, ∀ c, e.2.child = some c → IsMap c

theorem Flat.isMap {fm out : FieldMap} (h : Flat fm out) (hg : Good fm) : IsMap out :=
  .intro (hg.1.sublist h.keys) (h.below hg.2)

theorem Flat.cons {e : String × Field} {fm out out' : FieldMap} (h : Flat [e] out)
    (h' : Flat fm out') : Flat (e :: fm) (out ++ out') where
  keys := by
    have hlevel : levelKeys (e :: fm) = levelKeys [e] ++ levelKeys fm := by
      simp [levelKeys_eq]
    rw [hlevel, Document.keys, List.map_append]
    exact h.keys.append h'.keys
  clean := cleanAll_iff.mpr
    (List.forall_mem_append.mpr ⟨cleanAll_iff.mp h.clean, cleanAll_iff.mp h'.clean⟩)
  shows p := by
    rw [showsAll_append, h.shows, h'.shows, ← showsAll_append]
    rfl
  below hg := List.forall_mem_append.mpr ⟨h.below ⟨hg.1, trivial⟩, h'.below hg.2⟩

theorem flat_nil : Flat [] [] :=
  ⟨.slnil, trivial, fun _ => Iff.rfl, fun _ _ he => absurd he List.not_mem_nil⟩

section Entry

variable (k : String) {f : Field}

theorem levelKeys_singleton : levelKeys [(k, f)] = k :: f.innerKeys := by
  simp [levelKeys_eq]

theorem Flat.embedded (ha : f.anonymous = true)
    (h : ∀ c, f.child = some c → Flat c (flatten c)) :
    Flat [(k, f)] (flatten (f.child.getD [])) := by
  have hchild : Flat (f.child.getD []) (flatten (f.child.getD [])) := by
    cases hc : f.child with
    | none => exact flat_nil
    | some c => exact h c hc
  refine ⟨?_, hchild.clean, fun p => ?_, fun hg e he c' hc' => ?_⟩
  · rw [levelKeys_singleton, innerKeys_of_anonymous ha]
    exact hchild.keys.cons _
  · rw [hchild.shows, showsAll_singleton, shows_anonymous (e := (k, f)) ha]
  · cases hc : f.child with
    | none =>
      rw [hc] at he
      cases he
    | some c =>
      rw [hc] at hchild he
      exact (hchild.isMap (hg.1.child hc)).child he hc'

theorem Flat.leaf (ha : f.anonymous = false) (hc : f.child = none) : Flat [(k, f)] [(k, f)] where
  keys := List.singleton_sublist.mpr (levelKeys_singleton k ▸ List.mem_cons_self)
  clean := ⟨ha, clean_iff.mpr (by simp [hc]), trivial⟩
  shows _ := Iff.rfl
  below _ := List.forall_mem_singleton.mpr fun _ hc' => nomatch hc.symm.trans hc'

theorem Flat.named {c out : FieldMap} (ha : f.anonymous = false) (hc : f.child = some c)
    (h : Flat c out) : Flat [(k, f)] [(k, f.withChild out)] := by
  have hnamed := (anonymous_withChild f out).trans ha
  have halike : Alike bare bare (k, f) (k, f.withChild out) :=
    alike_withChild steady_bare hc h.shows
  refine ⟨List.singleton_sublist.mpr (levelKeys_singleton k ▸ List.mem_cons_self),
    ⟨hnamed, clean_iff.mpr fun c' hc' => ?_, trivial⟩, fun p => ?_,
    fun hg => List.forall_mem_singleton.mpr fun c' hc' => ?_⟩
  · rw [child_withChild] at hc'
    exact Option.some.inj hc' ▸ h.clean
  · rw [showsAll_singleton, showsAll_singleton, halike.shows]
  · rw [child_withChild] at hc'
    exact Option.some.inj hc' ▸ h.isMap (hg.1.child hc)

end Entry

theorem flat_flatten (fm : FieldMap) : Flat fm (flatten fm) := by
  induction fm using tree_induction with
  | step fm ih =>
    induction fm with
    | nil => exact flat_nil
    | cons e fm ihfm =>
      obtain ⟨k, f⟩ := e
      have hbelow := ih (k, f) List.mem_cons_self
      refine Flat.cons ?_ (ihfm fun e he => ih e (List.mem_cons_of_mem _ he))
      cases ha : f.anonymous with
      | true => exact flatten_of_anonymous k ha ▸ .embedded k ha hbelow
      | false =>
        cases hc : f.child with
        | none => exact flatten_of_leaf k ha hc ▸ .leaf k ha hc
        | some c => exact flatten_of_child k ha hc ▸ .named k ha hc (hbelow c hc)

/-! ## Trees whose names are distinct -/

/-- A map of fields, and maps below it. -/
structure FieldTree where
  map : FieldMap
  isMap : IsMap map

/-- `merge` ends and loses nothing. -/
structure Flattens (fm : FieldMap) : Prop where
  /-- every chain of computations is finite, -/
  ends : Acc (fun y x => Next x y) (.merge fm)
  /-- and each of them has a result; -/
  returns : ∀ x, ReflTransGen Next (.merge fm) x → x.Returns
  /-- no anonymous field is left, at any depth, -/
  clean : ∀ fm', Merge fm fm' → CleanAll fm'
  /-- and when the keys of each level are distinct, exactly its named fields are. -/
  content : Good fm → ∀ fm', Merge fm fm' → Same fm' (flatten fm)

theorem merge_flattens (t : FieldTree) : Flattens t.map where
  ends := wf_next.apply _
  returns x _ := returns x
  clean _ h := (merge_clean h t.isMap).2
  content hg fm' h := by
    obtain ⟨hmap, hclean⟩ := merge_clean h t.isMap
    have hflat := flat_flatten t.map
    refine same_of_shows hmap hclean (hflat.isMap hg) hflat.clean fun p => ?_
    rw [(merge_yields steady_bare h t.isMap hg.apart).shows p, hflat.shows]

end Doodle.Service.Document
