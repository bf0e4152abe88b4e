/-
  Descending along a relation, a number of steps at a time.

  A recursion that follows a relation needs as many nested calls as the longest descent has steps.
  From where a cycle can be reached there are descents of every length (`descends_of_cycle`), and on
  a finite type from nowhere else there is one with as many steps as points (`exists_cycle`).
-/
import Mathlib.Data.Fintype.Pigeonhole
import Mathlib.Logic.Relation

namespace Doodle.Lib

open Relation

variable {α : Type} (r : α → α → Prop)

/-- A descent of so many steps starts at `a`. -/
def Descends : Nat → α → Prop
  | 0, _ => True
  | n + 1, a => ∃ b, r a b ∧ Descends n b

theorem exists_path {n : Nat} {a : α} (h : Descends r n a) :
    ∃ f : Nat → α, f 0 = a ∧ ∀ i < n, r (f i) (f (i + 1)) := by
  induction n generalizing a with
  | zero => exact ⟨fun _ => a, rfl, fun i hi => absurd hi (Nat.not_lt_zero i)⟩
  | succ n ih =>
    obtain ⟨b, hab, hb⟩ := h
    obtain ⟨f, hf, hstep⟩ := ih hb
    refine ⟨fun i => i.casesOn a f, rfl, fun i hi => ?_⟩
    cases i with
    | zero =>
      rw [← hf] at hab
      exact hab
    | succ i => exact hstep i (Nat.lt_of_succ_lt_succ hi)

/-- The points of a path are connected. -/
theorem reflTransGen_of_path {f : Nat → α} {n : Nat} (hstep : ∀ i < n, r (f i) (f (i + 1)))
    (i : Nat) {m : Nat} (h : i + m ≤ n) : ReflTransGen r (f i) (f (i + m)) := by
  induction m with
  | zero => exact .refl
  | succ m ih => exact (ih (by omega)).tail (hstep (i + m) (by omega))

/-- From a point that reaches a cycle one can always go on. -/
theorem descends_of_cycle {u : α} (hu : TransGen r u u) (n : Nat) :
    ∀ a, ReflTransGen r a u → Descends r n a := by
  induction n with
  | zero => exact fun _ _ => trivial
  | succ n ih =>
    intro a ha
    obtain ⟨b, hab, hb⟩ := TransGen.head'_iff.mp (TransGen.trans_right ha hu)
    exact ⟨b, hab, ih b hb⟩

theorem exists_cycle [Fintype α] {a : α} (h : Descends r (Fintype.card α) a) :
    ∃ u, ReflTransGen r a u ∧ TransGen r u u := by
  obtain ⟨f, rfl, hstep⟩ := exists_path r h
  -- the path has more points than there are, so it visits one of them twice
  obtain ⟨i, j, hne, hij⟩ := Fintype.exists_ne_map_eq_of_card_lt
    (fun i : Fin (Fintype.card α + 1) => f i) (by simp)
  wlog hlt : i < j generalizing i j
  · exact this j i hne.symm hij.symm (lt_of_le_of_ne (not_lt.mp hlt) hne.symm)
  have hlt' : (i : Nat) < j := hlt
  have hj := j.isLt
  have hreach := reflTransGen_of_path r hstep 0 (m := i) (by omega)
  have hback := reflTransGen_of_path r hstep (i + 1) (m := j - (i + 1)) (by omega)
  rw [Nat.zero_add] at hreach
  rw [show (i : Nat) + 1 + (j - (i + 1)) = j by omega, ← hij] at hback
  exact ⟨f i, hreach, TransGen.head' (hstep i (by omega)) hback⟩

end Doodle.Lib
