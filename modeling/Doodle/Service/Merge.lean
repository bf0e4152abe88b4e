/-
  `merge` of `service/document.go` on any map of fields: every computation ends, whatever the order
  of its ranges, and leaves no anonymous entry.

  `Clear`, `Merge` and `MergeAll` say what a computation may leave. `Next` says what else is
  computed on the way: the rest of a range, the maps of the children, another round. A computation
  that does not end is an infinite chain of it.

  * `wf_next`: there is none, because a range that sets the flag leaves fewer fields.
  * `returns`: no computation gets stuck either.
  * `merge_clean`: what is left of a map is a map without anonymous entries, at any depth.
-/
import Doodle.Service.Document
import Mathlib.Data.List.Nodup
import Mathlib.Data.Prod.Lex
import Mathlib.Logic.Relation

namespace Doodle.Service.Document

/-! ## Trees of fields -/

mutual

def Field.Clean : Field → Prop
  | .mk _ _ _ _ _ none => True
  | .mk _ _ _ _ _ (some c) => CleanAll c

/-- No anonymous entry at any depth. -/
def CleanAll : FieldMap → Prop
  | [] => True
  | (_, f) :: fm => f.anonymous = false ∧ f.Clean ∧ CleanAll fm

end

mutual

/-- The number of fields, at every depth. -/
def Field.size : Field → Nat
  | .mk _ _ _ _ _ none => 1
  | .mk _ _ _ _ _ (some c) => 1 + size c

def size : FieldMap → Nat
  | [] => 0
  | (_, f) :: fm => f.size + size fm

end

/-- The map and all maps of children below it satisfy `p`. -/
inductive Deep (p : FieldMap → Prop) : FieldMap → Prop where
  | intro {fm : FieldMap} (here : p fm)
      (below : ∀ e ∈ fm, ∀ c, e.2.child = some c → Deep p c) : Deep p fm

/-- No two entries of one map have one key. -/
def IsMap (fm : FieldMap) : Prop := Deep (fun c => (keys c).Nodup) fm

namespace Deep

variable {p q : FieldMap → Prop} {fm : FieldMap}

theorem here (h : Deep p fm) : p fm := by
  cases h with
  | intro here _ => exact here

theorem child (h : Deep p fm) {e : String × Field} (he : e ∈ fm) {c : FieldMap}
    (hc : e.2.child = some c) : Deep p c := by
  cases h with
  | intro _ below => exact below e he c hc

theorem imp (hpq : ∀ fm, p fm → q fm) (h : Deep p fm) : Deep q fm := by
  induction h with
  | intro here _ ih => exact .intro (hpq _ here) ih

end Deep

theorem cleanAll_iff {fm : FieldMap} :
    CleanAll fm ↔ ∀ e ∈ fm, e.2.anonymous = false ∧ e.2.Clean := by
  induction fm with
  | nil => simp [CleanAll]
  | cons e fm ih => simp [CleanAll, ih, and_assoc]

theorem clean_iff {f : Field} : f.Clean ↔ ∀ c, f.child = some c → CleanAll c := by
  obtain ⟨_, _, _, _, _, child⟩ := f
  cases child with
  | none => simp [Field.Clean, Field.child]
  | some c => simp [Field.Clean, Field.child]

theorem child_withChild (f : Field) (c : FieldMap) : (f.withChild c).child = some c := by
  obtain ⟨_, _, _, _, _, _⟩ := f
  rfl

theorem anonymous_withChild (f : Field) (c : FieldMap) :
    (f.withChild c).anonymous = f.anonymous := by
  obtain ⟨_, _, _, _, _, _⟩ := f
  rfl

theorem size_eq (f : Field) : f.size = 1 + size (f.child.getD []) := by
  obtain ⟨_, _, _, _, _, child⟩ := f
  cases child with
  | none => simp [Field.child, Field.size, size]
  | some c => simp [Field.child, Field.size]

theorem size_append (fm fm' : FieldMap) : size (fm ++ fm') = size fm + size fm' := by
  induction fm with
  | nil => simp [size]
  | cons e fm ih => simp [size, ih, Nat.add_assoc]

theorem size_child_lt {fm : FieldMap} {e : String × Field} (he : e ∈ fm) {c : FieldMap}
    (hc : e.2.child = some c) : size c < size fm := by
  obtain ⟨pre, post, rfl⟩ := List.append_of_mem he
  rw [size_append, size, size_eq, hc, Option.getD_some]
  omega

/-- Induction on a tree: a map after the maps of its children. -/
theorem tree_induction {P : FieldMap → Prop}
    (step : ∀ fm, (∀ e ∈ fm, ∀ c, e.2.child = some c → P c) → P fm) (fm : FieldMap) : P fm := by
  induction hn : size fm using Nat.strongRecOn generalizing fm with
  | ind n ih =>
    subst hn
    exact step fm fun e he c hc => ih (size c) (size_child_lt he hc) c rfl

/-! ## Lookups and assignments -/

theorem split_of_lookup {fm : FieldMap} {k : String} {f : Field} (h : fm.lookup k = some f) :
    ∃ pre post, fm = pre ++ (k, f) :: post := by
  induction fm with
  | nil => cases h
  | cons e fm ih =>
    obtain ⟨k', f'⟩ := e
    by_cases hk : k = k'
    · subst hk
      simp only [List.lookup_cons, BEq.rfl] at h
      obtain rfl := Option.some.inj h
      exact ⟨[], fm, rfl⟩
    · have hbeq : (k == k') = false := by simpa using hk
      rw [List.lookup_cons, hbeq] at h
      obtain ⟨pre, post, rfl⟩ := ih h
      exact ⟨(k', f') :: pre, post, rfl⟩

theorem mem_of_lookup {fm : FieldMap} {k : String} {f : Field} (h : fm.lookup k = some f) :
    (k, f) ∈ fm := by
  obtain ⟨pre, post, rfl⟩ := split_of_lookup h
  exact List.mem_append_right _ List.mem_cons_self

theorem lookup_of_mem {fm : FieldMap} (h : (keys fm).Nodup) {e : String × Field} (he : e ∈ fm) :
    fm.lookup e.1 = some e.2 := by
  induction fm with
  | nil => cases he
  | cons e' fm ih =>
    obtain ⟨k, f⟩ := e'
    obtain ⟨hnot, hrest⟩ := List.nodup_cons.mp h
    rcases List.mem_cons.mp he with rfl | he
    · simp
    · have hne : (e.1 == k) = false :=
        beq_eq_false_iff_ne.mpr fun heq => hnot (List.mem_map.mpr ⟨e, he, heq⟩)
      rw [List.lookup_cons, hne]
      exact ih hrest he

theorem put_of_not_mem {k : String} {f : Field} {fm : FieldMap} (h : k ∉ keys fm) :
    put k f fm = fm ++ [(k, f)] := by
  induction fm with
  | nil => rfl
  | cons e fm ih =>
    obtain ⟨k', f'⟩ := e
    obtain ⟨hne, hrest⟩ := not_or.mp (mt List.mem_cons.mpr h)
    rw [put, if_neg (Ne.symm hne), ih hrest]
    rfl

theorem keys_put_of_mem {k : String} {f : Field} {fm : FieldMap} (h : k ∈ keys fm) :
    keys (put k f fm) = keys fm := by
  induction fm with
  | nil => cases h
  | cons e fm ih =>
    obtain ⟨k', f'⟩ := e
    by_cases hk : k' = k
    · rw [put, if_pos hk, ← hk]
      rfl
    · have hrest : k ∈ keys fm := (List.mem_cons.mp h).resolve_left (Ne.symm hk)
      rw [put, if_neg hk]
      exact congrArg (k' :: ·) (ih hrest)

theorem nodup_put {k : String} {f : Field} {fm : FieldMap} (h : (keys fm).Nodup) :
    (keys (put k f fm)).Nodup := by
  by_cases hk : k ∈ keys fm
  · rw [keys_put_of_mem hk]
    exact h
  · rw [put_of_not_mem hk, keys, List.map_append]
    exact List.Nodup.append h (List.nodup_singleton k) (List.disjoint_singleton.mpr hk)

theorem mem_put {k : String} {f : Field} {fm : FieldMap} {e : String × Field}
    (h : e ∈ put k f fm) : e = (k, f) ∨ e ∈ fm := by
  induction fm with
  | nil => exact .inl (List.mem_singleton.mp h)
  | cons e' fm ih =>
    obtain ⟨k', f'⟩ := e'
    by_cases hk : k' = k
    · rw [put, if_pos hk] at h
      exact (List.mem_cons.mp h).imp_right (List.mem_cons_of_mem _)
    · rw [put, if_neg hk] at h
      rcases List.mem_cons.mp h with rfl | h
      · exact .inr List.mem_cons_self
      · exact (ih h).imp_right (List.mem_cons_of_mem _)

theorem size_put (k : String) (f : Field) (fm : FieldMap) :
    size (put k f fm) ≤ size fm + f.size := by
  induction fm with
  | nil => simp [put, size]
  | cons e fm ih =>
    obtain ⟨k', f'⟩ := e
    unfold put
    split
    · simp only [size]
      omega
    · simp only [size]
      omega

theorem putAll_cons (e : String × Field) (m fm : FieldMap) :
    putAll (e :: m) fm = putAll m (put e.1 e.2 fm) := rfl

theorem nodup_putAll {m fm : FieldMap} (h : (keys fm).Nodup) : (keys (putAll m fm)).Nodup := by
  induction m generalizing fm with
  | nil => exact h
  | cons e m ih =>
    rw [putAll_cons]
    exact ih (nodup_put h)

theorem mem_putAll {m fm : FieldMap} {e : String × Field} (h : e ∈ putAll m fm) :
    e ∈ m ∨ e ∈ fm := by
  induction m generalizing fm with
  | nil => exact .inr h
  | cons e' m ih =>
    rw [putAll_cons] at h
    rcases ih h with h | h
    · exact .inl (List.mem_cons_of_mem _ h)
    · exact (mem_put h).imp_left fun heq : e = e' => heq ▸ List.mem_cons_self

theorem size_putAll (m fm : FieldMap) : size (putAll m fm) ≤ size fm + size m := by
  induction m generalizing fm with
  | nil => simp [putAll, size]
  | cons e m ih =>
    have hrest := ih (put e.1 e.2 fm)
    have hput := size_put e.1 e.2 fm
    rw [putAll_cons, size]
    omega

theorem size_filter (p : String × Field → Bool) (fm : FieldMap) : size (fm.filter p) ≤ size fm := by
  induction fm with
  | nil => simp
  | cons e fm ih =>
    rw [List.filter_cons, size]
    split
    · rw [size]
      omega
    · omega

theorem size_del (pre post : FieldMap) (k : String) (f : Field) :
    size (del k (pre ++ (k, f) :: post)) + f.size ≤ size (pre ++ (k, f) :: post) := by
  have hpre := size_filter (fun e => decide (e.1 ≠ k)) pre
  have hpost := size_filter (fun e => decide (e.1 ≠ k)) post
  have hdel : del k (pre ++ (k, f) :: post) = del k pre ++ del k post := by
    simp [del, List.filter_append]
  rw [hdel, size_append, size_append, size]
  unfold del
  omega

/-! ## Promoting an entry -/

/-- The map after the anonymous entry of the key `k` has gone and its children have come. -/
def promoted (fm : FieldMap) (k : String) (f : Field) : FieldMap :=
  putAll (f.child.getD []) (del k fm)

/-- Each promotion removes a field. -/
theorem size_promoted {fm : FieldMap} {k : String} {f : Field} (h : fm.lookup k = some f) :
    size (promoted fm k f) < size fm := by
  obtain ⟨pre, post, rfl⟩ := split_of_lookup h
  have hput := size_putAll (f.child.getD []) (del k (pre ++ (k, f) :: post))
  have hdel := size_del pre post k f
  have hfield := size_eq f
  unfold promoted
  omega

/-- What holds of the maps below the entries of a map holds after a promotion. -/
theorem below_promoted {p : FieldMap → Prop} {fm : FieldMap} {k : String} {f : Field}
    (h : Deep p fm) (hl : fm.lookup k = some f) :
    ∀ e ∈ promoted fm k f, ∀ c, e.2.child = some c → Deep p c := by
  intro e he c hc
  rcases mem_putAll he with he | he
  · cases hchild : f.child with
    | none =>
      rw [hchild] at he
      cases he
    | some cf =>
      rw [hchild] at he
      exact (h.child (mem_of_lookup hl) hchild).child he hc
  · exact h.child (List.mem_of_mem_filter he) hc

theorem isMap_promoted {fm : FieldMap} {k : String} {f : Field} (h : IsMap fm)
    (hl : fm.lookup k = some f) : IsMap (promoted fm k f) :=
  .intro (nodup_putAll (h.here.sublist (List.filter_sublist.map _))) (below_promoted h hl)

theorem isMap_clear {todo : List String} {fm fm' : FieldMap} {ok ok' : Bool}
    (h : Clear todo fm ok fm' ok') (hm : IsMap fm) : IsMap fm' := by
  induction h with
  | done _ => exact hm
  | keep _ _ _ _ ih => exact ih hm
  | promote _ hl _ _ _ _ ih => exact ih (isMap_promoted hm hl)

/-- A range leaves the map and the flag alone, or sets the flag and removes a field. -/
theorem clear_cases {todo : List String} {fm fm' : FieldMap} {ok ok' : Bool}
    (h : Clear todo fm ok fm' ok') :
    (ok' = ok ∧ fm' = fm) ∨ (ok' = true ∧ size fm' < size fm) := by
  induction h with
  | done _ => exact .inl ⟨rfl, rfl⟩
  | keep _ _ _ _ ih => exact ih
  | promote _ hl _ _ _ _ ih =>
    have hsize := size_promoted hl
    refine .inr ?_
    rcases ih with ⟨rfl, rfl⟩ | ⟨rfl, hlt⟩
    · exact ⟨rfl, hsize⟩
    · exact ⟨rfl, hlt.trans hsize⟩

/-- A range that clears its flag has met no anonymous entry. -/
theorem clear_false {todo : List String} {fm fm' : FieldMap} {ok ok' : Bool}
    (h : Clear todo fm ok fm' ok') (hok : ok' = false) :
    ok = false ∧ fm' = fm ∧ ∀ k ∈ todo, ∀ f, fm.lookup k = some f → f.anonymous = false := by
  induction h with
  | done hnone =>
    refine ⟨hok, rfl, fun k hk f hl => ?_⟩
    rw [hnone k hk] at hl
    cases hl
  | keep _ hl ha _ ih =>
    obtain ⟨hok', hfm, hall⟩ := ih hok
    refine ⟨hok', hfm, fun k' hk' f' hl' => ?_⟩
    rename_i todo fm ok fm' ok' k f hk _
    by_cases hkk : k' = k
    · rw [hkk, hl] at hl'
      obtain rfl := Option.some.inj hl'
      exact ha
    · exact hall k' ((List.mem_erase_of_ne hkk).mpr hk') f' hl'
  | promote _ _ _ _ _ _ ih =>
    obtain ⟨htrue, -⟩ := ih hok
    cases htrue

/-! ## What is left -/

/-- The range over the children keeps keys and flags, and leaves clean maps below the entries. -/
structure ChildrenClean (fm fm' : FieldMap) : Prop where
  keys : keys fm' = keys fm
  anonymous : fm'.map (fun e => e.2.anonymous) = fm.map (fun e => e.2.anonymous)
  clean : ∀ e ∈ fm', e.2.Clean ∧ ∀ c, e.2.child = some c → IsMap c

theorem ChildrenClean.cons {k : String} {f f' : Field} {fm fm' : FieldMap}
    (h : ChildrenClean fm fm') (hanon : f'.anonymous = f.anonymous)
    (hclean : f'.Clean ∧ ∀ c, f'.child = some c → IsMap c) :
    ChildrenClean ((k, f) :: fm) ((k, f') :: fm') := by
  refine ⟨congrArg (k :: ·) h.keys, ?_, List.forall_mem_cons.mpr ⟨hclean, h.clean⟩⟩
  rw [List.map_cons, List.map_cons, hanon, h.anonymous]

/-- When the last round has met no anonymous entry there is none left. -/
theorem ChildrenClean.cleanAll {fm fm' : FieldMap} (h : ChildrenClean fm fm')
    (hnone : ∀ e ∈ fm, e.2.anonymous = false) : CleanAll fm' := by
  refine cleanAll_iff.mpr fun e he => ⟨?_, (h.clean e he).1⟩
  have hmem : e.2.anonymous ∈ fm'.map fun e => e.2.anonymous := List.mem_map_of_mem he
  rw [h.anonymous] at hmem
  obtain ⟨e', he', heq⟩ := List.mem_map.mp hmem
  rw [← heq]
  exact hnone e' he'

theorem ChildrenClean.isMap {fm fm' : FieldMap} (h : ChildrenClean fm fm')
    (hn : (Document.keys fm).Nodup) : IsMap fm' :=
  .intro (h.keys ▸ hn) fun e he => (h.clean e he).2

mutual

/-- Whatever `merge` may leave of a map is a map without anonymous entries. -/
theorem merge_clean {fm fm' : FieldMap} (h : Merge fm fm') (hm : IsMap fm) :
    IsMap fm' ∧ CleanAll fm' := by
  match h with
  | .stop hclear hall =>
    obtain ⟨-, rfl, hnone⟩ := clear_false hclear rfl
    have hchildren := mergeAll_clean hall fun e he c hc => hm.child he hc
    refine ⟨hchildren.isMap hm.here, hchildren.cleanAll fun e he => ?_⟩
    exact hnone e.1 (List.mem_map_of_mem he) e.2 (lookup_of_mem hm.here he)
  | .again hclear hall hrest =>
    have hcleared := isMap_clear hclear hm
    have hchildren := mergeAll_clean hall fun e he c hc => hcleared.child he hc
    exact merge_clean hrest (hchildren.isMap hcleared.here)

theorem mergeAll_clean {fm fm' : FieldMap} (h : MergeAll fm fm')
    (hm : ∀ e ∈ fm, ∀ c, e.2.child = some c → IsMap c) : ChildrenClean fm fm' := by
  match h with
  | .nil => exact ⟨rfl, rfl, fun e he => absurd he List.not_mem_nil⟩
  | .leaf hc hall =>
    have hrest := mergeAll_clean hall fun e he => hm e (List.mem_cons_of_mem _ he)
    refine hrest.cons rfl ⟨clean_iff.mpr fun c hc' => ?_, hm _ List.mem_cons_self⟩
    rw [hc] at hc'
    cases hc'
  | .inner hc hmerge hall =>
    have hrest := mergeAll_clean hall fun e he => hm e (List.mem_cons_of_mem _ he)
    obtain ⟨hmap, hclean⟩ := merge_clean hmerge (hm _ List.mem_cons_self _ hc)
    refine hrest.cons (anonymous_withChild _ _) ⟨clean_iff.mpr fun c hc' => ?_, fun c hc' => ?_⟩
    · rw [child_withChild] at hc'
      exact Option.some.inj hc' ▸ hclean
    · rw [child_withChild] at hc'
      exact Option.some.inj hc' ▸ hmap

end

mutual

theorem size_merge {fm fm' : FieldMap} (h : Merge fm fm') : size fm' ≤ size fm := by
  match h with
  | .stop hclear hall =>
    obtain ⟨-, rfl, -⟩ := clear_false hclear rfl
    exact size_mergeAll hall
  | .again hclear hall hrest =>
    have hall' := size_mergeAll hall
    have hrest' := size_merge hrest
    rcases clear_cases hclear with ⟨-, rfl⟩ | ⟨-, hlt⟩
    · omega
    · omega

theorem size_mergeAll {fm fm' : FieldMap} (h : MergeAll fm fm') : size fm' ≤ size fm := by
  match h with
  | .nil => exact Nat.le_refl _
  | .leaf _ hall =>
    have := size_mergeAll hall
    simp only [size]
    omega
  | .inner hc hmerge hall =>
    have hall' := size_mergeAll hall
    have hmerge' := size_merge hmerge
    simp only [size, size_eq, child_withChild, hc, Option.getD_some]
    omega

end

/-! ## Every computation ends -/

/-- Something that is computed: what is left of a range, a call of `merge`, the range over the
    children. -/
inductive Task where
  | clear (todo : List String) (fm : FieldMap) (ok : Bool)
  | merge (fm : FieldMap)
  | mergeAll (fm : FieldMap)

/-- Computing the first may come to computing the second: the parts of it, each when those before
    it have returned. -/
inductive Next : Task → Task → Prop where
  | keep {todo fm ok k f} : k ∈ todo → fm.lookup k = some f → f.anonymous = false →
      Next (.clear todo fm ok) (.clear (todo.erase k) fm ok)
  | promote {todo fm ok k f new} : k ∈ todo → fm.lookup k = some f → f.anonymous = true →
      new.Nodup →
      (∀ key ∈ new, key ∈ keys (f.child.getD []) ∧ (del k fm).lookup key = none) →
      Next (.clear todo fm ok) (.clear (todo.erase k ++ new) (promoted fm k f) true)
  | range {fm} : Next (.merge fm) (.clear (keys fm) fm false)
  | children {fm fm₁ ok} : Clear (keys fm) fm false fm₁ ok → Next (.merge fm) (.mergeAll fm₁)
  | again {fm fm₁ fm₂} : Clear (keys fm) fm false fm₁ true → MergeAll fm₁ fm₂ →
      Next (.merge fm) (.merge fm₂)
  | child {k f c fm} : f.child = some c → Next (.mergeAll ((k, f) :: fm)) (.merge c)
  | rest {e fm} : Next (.mergeAll (e :: fm)) (.mergeAll fm)

/-- The task comes to a result. -/
def Task.Returns : Task → Prop
  | .clear todo fm ok => ∃ fm' ok', Clear todo fm ok fm' ok'
  | .merge fm => ∃ fm', Merge fm fm'
  | .mergeAll fm => ∃ fm', MergeAll fm fm'

/-- The fields there are, then what is left to visit. -/
def Task.rank : Task → Nat × Nat
  | .clear todo fm _ => (size fm, todo.length)
  | .merge fm => (size fm, (keys fm).length + 1)
  | .mergeAll fm => (size fm, 0)

theorem rank_next {x y : Task} (h : Next x y) : Prod.Lex (· < ·) (· < ·) y.rank x.rank := by
  cases h with
  | keep hk _ _ =>
    refine .right _ ?_
    have hpos := List.length_pos_of_mem hk
    rw [List.length_erase_of_mem hk]
    omega
  | promote _ hl _ _ _ => exact .left _ _ (size_promoted hl)
  | range => exact .right _ (Nat.lt_succ_self _)
  | children hclear =>
    rcases clear_cases hclear with ⟨-, rfl⟩ | ⟨-, hlt⟩
    · exact .right _ (Nat.succ_pos _)
    · exact .left _ _ hlt
  | again hclear hall =>
    have hle := size_mergeAll hall
    rcases clear_cases hclear with ⟨hfalse, -⟩ | ⟨-, hlt⟩
    · cases hfalse
    · exact .left _ _ (Nat.lt_of_le_of_lt hle hlt)
  | child hc =>
    refine .left _ _ ?_
    simp only [size, size_eq, hc, Option.getD_some]
    omega
  | rest =>
    refine .left _ _ ?_
    rw [size, size_eq]
    omega

/-- No chain of computations is infinite. -/
theorem wf_next : WellFounded fun y x => Next x y :=
  Subrelation.wf rank_next (InvImage.wf Task.rank (Nat.lt_wfRel.wf.prod_lex Nat.lt_wfRel.wf))

/-- A task returns when everything does that it comes to. -/
theorem returns_of_next {x : Task} (h : ∀ y, Next x y → y.Returns) : x.Returns := by
  cases x with
  | clear todo fm ok =>
    by_cases hvisit : ∃ k ∈ todo, (fm.lookup k).isSome
    · obtain ⟨k, hk, hsome⟩ := hvisit
      obtain ⟨f, hl⟩ := Option.isSome_iff_exists.mp hsome
      cases ha : f.anonymous with
      | false =>
        obtain ⟨fm', ok', hclear⟩ := h _ (.keep hk hl ha)
        exact ⟨fm', ok', .keep hk hl ha hclear⟩
      | true =>
        obtain ⟨fm', ok', hclear⟩ := h _ (.promote hk hl ha List.nodup_nil (by simp))
        exact ⟨fm', ok', .promote hk hl ha List.nodup_nil (by simp) hclear⟩
    · refine ⟨fm, ok, .done fun k hk => Option.not_isSome_iff_eq_none.mp fun hs => ?_⟩
      exact hvisit ⟨k, hk, hs⟩
  | merge fm =>
    obtain ⟨fm₁, ok, hclear⟩ := h _ .range
    obtain ⟨fm₂, hall⟩ := h _ (.children hclear)
    cases ok with
    | false => exact ⟨fm₂, .stop hclear hall⟩
    | true =>
      obtain ⟨fm₃, hmerge⟩ := h _ (.again hclear hall)
      exact ⟨fm₃, .again hclear hall hmerge⟩
  | mergeAll fm =>
    cases fm with
    | nil => exact ⟨[], .nil⟩
    | cons e fm =>
      obtain ⟨k, f⟩ := e
      obtain ⟨fm', hall⟩ := h _ .rest
      cases hc : f.child with
      | none => exact ⟨_, .leaf hc hall⟩
      | some c =>
        obtain ⟨c', hmerge⟩ := h _ (.child hc)
        exact ⟨_, .inner hc hmerge hall⟩

theorem returns (x : Task) : x.Returns := by
  induction x using wf_next.induction with
  | _ x ih => exact returns_of_next ih

end Doodle.Service.Document
