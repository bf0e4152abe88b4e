/-
  `sort.Search` of Go's `sort` package, the search by bisection.

  * `search_spec`: for a predicate that stays true once it is, it finds the first index at which
    the predicate is true, or the upper bound.
  * `search_cut`: where it cuts a list.
-/
import Mathlib.Tactic.Common

namespace Doodle.Go

/-- The loop of `sort.Search`, from the bounds `i` and `j`. -/
def searchFrom (f : Nat → Bool) (i j : Nat) : Nat :=
  if i < j then
    if !f ((i + j) / 2) then searchFrom f ((i + j) / 2 + 1) j
    else searchFrom f i ((i + j) / 2)
  else i
termination_by j - i

/-- `sort.Search(n, f)` -/
def search (n : Nat) (f : Nat → Bool) : Nat := searchFrom f 0 n

/-- The place `r` where `f` turns from false to true, among the first `n`. -/
structure Turns (f : Nat → Bool) (n r : Nat) : Prop where
  le : r ≤ n
  below : ∀ k, k < r → f k = false
  above : ∀ k, r ≤ k → k < n → f k = true

section Search

variable {f : Nat → Bool} {n : Nat} (hmono : ∀ i j, i ≤ j → j < n → f i = true → f j = true)

include hmono

/-- The invariant of the loop: `f` is false below `i` and true from `j` on. -/
theorem searchFrom_spec (i j : Nat) (hij : i ≤ j) (hj : j ≤ n)
    (hbelow : ∀ k, k < i → f k = false) (habove : ∀ k, j ≤ k → k < n → f k = true) :
    Turns f n (searchFrom f i j) := by
  induction i, j using searchFrom.induct f with
  | case1 i j hlt hmid ih =>
    rw [searchFrom, if_pos hlt, if_pos hmid]
    have hfalse : f ((i + j) / 2) = false := by simpa using hmid
    refine ih (by omega) hj (fun k hk => ?_) habove
    cases hk' : f k with
    | false => rfl
    | true =>
      have htrue := hmono k ((i + j) / 2) (by omega) (by omega) hk'
      rw [hfalse] at htrue
      cases htrue
  | case2 i j hlt hmid ih =>
    rw [searchFrom, if_pos hlt, if_neg hmid]
    have htrue : f ((i + j) / 2) = true := by simpa using hmid
    exact ih (by omega) (by omega) hbelow fun k hk hkn => hmono _ k hk hkn htrue
  | case3 i j hge =>
    rw [searchFrom, if_neg hge]
    exact ⟨by omega, hbelow, fun k hk => habove k (by omega)⟩

theorem search_spec : Turns f n (search n f) :=
  searchFrom_spec hmono 0 n (Nat.zero_le n) (Nat.le_refl n) (fun k hk => by omega)
    fun k hk hkn => by omega

end Search

theorem search_cut {α : Type} {s : List α} {p : α → Bool} (h : s.Pairwise fun x y => p x → p y) :
    ∃ low high, s = low ++ high ∧ search s.length (fun i => (s[i]?).any p) = low.length ∧
      (∀ x ∈ low, p x = false) ∧ ∀ x ∈ high, p x = true := by
  have hturns : Turns (fun i => (s[i]?).any p) s.length _ := search_spec fun i j hij hj hi => by
    rcases Nat.lt_or_eq_of_le hij with hlt | rfl
    · have hsi : i < s.length := by omega
      simp only [hsi, hj, List.getElem?_eq_getElem, Option.any_some] at hi ⊢
      exact List.pairwise_iff_getElem.mp h i j hsi hj hlt hi
    · exact hi
  generalize search s.length _ = r at hturns ⊢
  have hle := hturns.le
  refine ⟨s.take r, s.drop r, by simp, by simp [hle], fun x hx => ?_, fun x hx => ?_⟩
  · obtain ⟨k, hk, rfl⟩ := List.mem_take_iff_getElem.mp hx
    simpa [show k < s.length by omega] using hturns.below k (by omega)
  · obtain ⟨k, hk, rfl⟩ := List.mem_drop_iff_getElem.mp hx
    have hlt : r + k < s.length := by omega
    simpa [hlt] using hturns.above (r + k) (by omega) hlt

end Doodle.Go
