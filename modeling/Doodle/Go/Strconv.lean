/-
  `strconv.ParseInt(s, 10, 64)`, `strconv.Atoi` with its error ignored, decimal texts, and what
  `database/sql` makes of a number that is scanned into a bool.
-/
import Mathlib.Algebra.Order.Ring.Int
import Mathlib.Tactic.Common

namespace Doodle.Go

/-- The digits of a number: at least one, nothing else. -/
def parseDigits (ds : List Char) : Option Nat :=
  if ds.isEmpty then none
  else if ds.all Char.isDigit then some (Nat.ofDigitChars 10 ds 0)
  else none

/-- `strconv.ParseInt(s, 10, 64)`: an optional sign and digits, in the range of an int64. -/
def parseInt (s : String) : Option Int :=
  match s.toList with
  | '-' :: ds => (parseDigits ds).bind fun n => if n ≤ 2 ^ 63 then some (-(n : Int)) else none
  | '+' :: ds => (parseDigits ds).bind fun n => if n < 2 ^ 63 then some (n : Int) else none
  | ds => (parseDigits ds).bind fun n => if n < 2 ^ 63 then some (n : Int) else none

example : parseInt "-12" = some (-12) := by decide

example : parseInt "9223372036854775808" = none := by decide

/-- `n, _ := strconv.Atoi(s)`: what is left in `n`. A number out of range leaves the bound it
    crossed, anything else that is not a number leaves 0. -/
def atoi (s : String) : Int :=
  match s.toList with
  | '-' :: ds => (parseDigits ds).elim 0 fun n => max (-(n : Int)) (-2 ^ 63)
  | '+' :: ds => (parseDigits ds).elim 0 fun n => min (n : Int) (2 ^ 63 - 1)
  | ds => (parseDigits ds).elim 0 fun n => min (n : Int) (2 ^ 63 - 1)

/-- `driver.Bool.ConvertValue` of a number. -/
def scanBool (n : Int) : Option Bool :=
  if n = 0 then some false else if n = 1 then some true else none

theorem parseDigits_toDigits (n : Nat) : parseDigits (Nat.toDigits 10 n) = some n := by
  have hd : (Nat.toDigits 10 n).all Char.isDigit = true :=
    List.all_eq_true.mpr fun c hc => Nat.isDigit_of_mem_toDigits (by decide) (by decide) hc
  have hne : (Nat.toDigits 10 n).isEmpty = false :=
    List.isEmpty_eq_false_iff.mpr Nat.toDigits_ne_nil
  simp only [parseDigits, hd, hne, if_true, Bool.false_eq_true, if_false,
    Nat.ofDigitChars_toDigits (by decide : 1 < 10) (by decide : 10 ≤ 10)]

theorem sign_not_mem_toDigits {n : Nat} : ∀ c ∈ Nat.toDigits 10 n, c ≠ '-' ∧ c ≠ '+' := by
  intro c hc
  have := Nat.isDigit_of_mem_toDigits (by decide) (by decide) hc
  constructor <;> (rintro rfl; revert this; decide)

theorem toList_repr_negSucc (m : Nat) :
    (Int.repr (Int.negSucc m)).toList = '-' :: Nat.toDigits 10 (m + 1) := by
  rw [Int.repr, String.toList_append, Nat.toList_repr]
  rfl

/-- Different numbers have different decimals. -/
theorem repr_inj {a b : Int} (h : a.repr = b.repr) : a = b := by
  have hdigits : ∀ {m n : Nat}, Nat.toDigits 10 m = Nat.toDigits 10 n → m = n := fun h => by
    have := congrArg parseDigits h
    rwa [parseDigits_toDigits, parseDigits_toDigits, Option.some.injEq] at this
  have hsign : ∀ {m n : Nat}, Nat.toDigits 10 m ≠ '-' :: Nat.toDigits 10 n := fun h =>
    (sign_not_mem_toDigits '-' (h ▸ List.mem_cons_self)).1 rfl
  have hlist := congrArg String.toList h
  cases a with
  | ofNat m =>
    cases b with
    | ofNat n =>
      rw [Int.repr, Int.repr, Nat.toList_repr, Nat.toList_repr] at hlist
      rw [hdigits hlist]
    | negSucc n =>
      rw [toList_repr_negSucc, Int.repr, Nat.toList_repr] at hlist
      exact absurd hlist hsign
  | negSucc m =>
    cases b with
    | ofNat n =>
      rw [toList_repr_negSucc, Int.repr, Nat.toList_repr] at hlist
      exact absurd hlist.symm hsign
    | negSucc n =>
      rw [toList_repr_negSucc, toList_repr_negSucc, List.cons.injEq] at hlist
      rw [Nat.succ.inj (hdigits hlist.2)]

/-- A number of 64 bits is read back from its decimal. -/
theorem parseInt_repr {n : Int} (hlo : -2 ^ 63 ≤ n) (hhi : n < 2 ^ 63) :
    parseInt n.repr = some n := by
  cases n with
  | ofNat m =>
    have hm : m < 2 ^ 63 := by
      rw [Int.ofNat_eq_natCast] at hhi
      omega
    rw [Int.repr, parseInt, Nat.toList_repr]
    split
    · next ds h => exact absurd rfl (sign_not_mem_toDigits '-' (h ▸ List.mem_cons_self)).1
    · next ds h => exact absurd rfl (sign_not_mem_toDigits '+' (h ▸ List.mem_cons_self)).2
    · rw [parseDigits_toDigits, Option.bind_some, if_pos hm]
      rfl
  | negSucc m =>
    have hm : m + 1 ≤ 2 ^ 63 := by omega
    rw [parseInt, toList_repr_negSucc]
    simp only [parseDigits_toDigits, Option.bind_some, if_pos hm]
    rfl

/-- A decimal reads as its number. -/
theorem atoi_repr {n : Nat} (hn : n < 2 ^ 63) : atoi n.repr = n := by
  have hmin : min (n : Int) (2 ^ 63 - 1) = n := by omega
  unfold atoi
  rw [Nat.toList_repr]
  split
  · next ds h => exact absurd rfl (sign_not_mem_toDigits '-' (h ▸ List.mem_cons_self)).1
  · next ds h => exact absurd rfl (sign_not_mem_toDigits '+' (h ▸ List.mem_cons_self)).2
  · rw [parseDigits_toDigits, Option.elim_some, hmin]

end Doodle.Go
