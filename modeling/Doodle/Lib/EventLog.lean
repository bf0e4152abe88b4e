/-
  Logs of changes to a keyed store, oldest change first, for arbitrary keys and values.

  A change carries the key and its value afterwards, `none` for a delete. What a key is bound to
  after a log is what its last change says (`valueAfter_concat`, `valueAfter_last`); changes of
  other keys do not matter (`valueAfter_append_of_forall_ne`). So it is bound when its last change
  gave it a value (`bound_iff_lastChange`).

  A log that is kept in several places, one after the other, is read back by going through the
  places in their order (`flatMap_filter_of_pairwise`).
-/
import Mathlib.Data.List.Basic
import Mathlib.Data.List.Induction
import Mathlib.Order.Basic

namespace Doodle.Lib

universe u v

variable {K : Type u} {V : Type v}

/-- One change: a key and what it is bound to from then on. -/
structure Change (K : Type u) (V : Type v) where
  key : K
  img : Option V

variable [DecidableEq K]

/-- What is bound after `log`, from an empty store. -/
def valueAfter (log : List (Change K V)) : K → Option V :=
  log.foldl (fun σ e k => if e.key = k then e.img else σ k) fun _ => none

/-- The key is bound after `log`. -/
def Bound (log : List (Change K V)) (k : K) : Prop := (valueAfter log k).isSome

instance (log : List (Change K V)) (k : K) : Decidable (Bound log k) :=
  inferInstanceAs (Decidable ((valueAfter log k).isSome = true))

theorem valueAfter_concat (log : List (Change K V)) (e : Change K V) (k : K) :
    valueAfter (log ++ [e]) k = if e.key = k then e.img else valueAfter log k := by
  unfold valueAfter
  rw [List.foldl_append]
  rfl

theorem valueAfter_append_of_forall_ne {l₁ l₂ : List (Change K V)} {k : K}
    (h : ∀ e ∈ l₂, e.key ≠ k) : valueAfter (l₁ ++ l₂) k = valueAfter l₁ k := by
  induction l₂ generalizing l₁ with
  | nil => rw [List.append_nil]
  | cons e l ih =>
    rw [List.append_cons, ih fun e' he' => h e' (List.mem_cons_of_mem _ he'), valueAfter_concat,
      if_neg (h e List.mem_cons_self)]

theorem bound_concat (log : List (Change K V)) (e : Change K V) (k : K) :
    Bound (log ++ [e]) k ↔ (e.key = k ∧ e.img.isSome) ∨ (e.key ≠ k ∧ Bound log k) := by
  unfold Bound
  rw [valueAfter_concat]
  by_cases h : e.key = k
  · simp [h]
  · simp [h]

/-- A bound key has a change in the log. -/
theorem exists_of_bound {log : List (Change K V)} {k : K} (h : Bound log k) :
    ∃ e ∈ log, e.key = k := by
  by_contra hno
  have hquiet : ∀ e ∈ log, e.key ≠ k := fun e he hkey => hno ⟨e, he, hkey⟩
  unfold Bound at h
  rw [← List.nil_append log, valueAfter_append_of_forall_ne hquiet] at h
  exact nomatch h

theorem valueAfter_last (l₁ : List (Change K V)) (e : Change K V) {l₂ : List (Change K V)}
    (h : ∀ e' ∈ l₂, e'.key ≠ e.key) : valueAfter (l₁ ++ e :: l₂) e.key = e.img := by
  rw [List.append_cons, valueAfter_append_of_forall_ne h, valueAfter_concat, if_pos rfl]

/-- The last change of a key. -/
def lastChange (log : List (Change K V)) (k : K) : Option (Change K V) :=
  log.reverse.find? fun e => e.key = k

theorem lastChange_concat (log : List (Change K V)) (e : Change K V) (k : K) :
    lastChange (log ++ [e]) k = if e.key = k then some e else lastChange log k := by
  simp only [lastChange, List.reverse_append, List.reverse_singleton, List.singleton_append,
    List.find?_cons]
  by_cases he : e.key = k
  · simp [he]
  · simp [he]

/-- A key is bound to what its last change says. -/
theorem valueAfter_eq_lastChange (log : List (Change K V)) (k : K) :
    valueAfter log k = (lastChange log k).bind Change.img := by
  induction log using List.reverseRecOn with
  | nil => rfl
  | append_singleton l e ih =>
    rw [valueAfter_concat, lastChange_concat, ih]
    by_cases he : e.key = k
    · simp [he]
    · simp [he]

/-- A key is bound exactly when its last change gave it a value. -/
theorem bound_iff_lastChange (log : List (Change K V)) (k : K) :
    Bound log k ↔ ∃ e, lastChange log k = some e ∧ e.img.isSome := by
  unfold Bound
  rw [valueAfter_eq_lastChange]
  cases lastChange log k <;> simp

/-! ## Logs in several places -/

section Places

variable {E P : Type} [PartialOrder P] [DecidableEq P] (place : E → P)

/-- The entries at the first place stand before the others. -/
theorem filter_append_filter_of_pairwise {p : P} : ∀ {l : List E},
    (l.Pairwise fun x y => place x ≤ place y) → (∀ x ∈ l, p ≤ place x) →
      (l.filter fun x => place x = p) ++ (l.filter fun x => place x ≠ p) = l
  | [], _, _ => rfl
  | x :: l, hl, hp => by
    obtain ⟨hx, hl⟩ := List.pairwise_cons.mp hl
    by_cases he : place x = p
    · have ih := filter_append_filter_of_pairwise hl fun y hy => hp y (List.mem_cons_of_mem _ hy)
      rw [List.filter_cons_of_pos (by simpa using he), List.filter_cons_of_neg (by simpa using he),
        List.cons_append, ih]
    · -- from `x` on no entry is at the first place
      have hlt : p < place x := lt_of_le_of_ne (hp x List.mem_cons_self) (Ne.symm he)
      have hne : ∀ y ∈ x :: l, place y ≠ p := fun y hy => by
        rcases List.mem_cons.mp hy with rfl | hy
        · exact he
        · exact (lt_of_lt_of_le hlt (hx y hy)).ne'
      rw [List.filter_eq_nil_iff.mpr fun y hy => by simpa using hne y hy,
        List.filter_eq_self.mpr fun y hy => by simpa using hne y hy, List.nil_append]

theorem flatMap_filter_of_pairwise : ∀ {ps : List P}, ps.Pairwise (· < ·) → ∀ {l : List E},
    (l.Pairwise fun x y => place x ≤ place y) → (∀ x ∈ l, place x ∈ ps) →
      (ps.flatMap fun p => l.filter fun x => place x = p) = l
  | [], _, l, _, hmem => by
    cases l with
    | nil => rfl
    | cons x l => exact absurd (hmem x List.mem_cons_self) List.not_mem_nil
  | p :: ps, hps, l, hl, hmem => by
    obtain ⟨hp, hps⟩ := List.pairwise_cons.mp hps
    have hfirst : ∀ x ∈ l, p ≤ place x := fun x hx => by
      rcases List.mem_cons.mp (hmem x hx) with he | hmem
      · exact he.ge
      · exact (hp _ hmem).le
    have hrest := flatMap_filter_of_pairwise hps (l := l.filter fun x => place x ≠ p)
      (hl.sublist List.filter_sublist) fun x hx => by
        obtain ⟨hx, hne⟩ := List.mem_filter.mp hx
        exact (List.mem_cons.mp (hmem x hx)).resolve_left (by simpa using hne)
    have hsame : (ps.flatMap fun q => l.filter fun x => place x = q) =
        ps.flatMap fun q => (l.filter fun x => place x ≠ p).filter fun x => place x = q := by
      refine List.flatMap_congr fun q hq => ?_
      rw [List.filter_filter]
      refine List.filter_congr fun x _ => ?_
      by_cases he : place x = q
      · simp [he, (hp q hq).ne']
      · simp [he]
    rw [List.flatMap_cons, hsame, hrest]
    exact filter_append_filter_of_pairwise place hl hfirst

end Places

end Doodle.Lib
