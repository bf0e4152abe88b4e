/-
  `strings.Split`, `strings.Join` and `strings.LastIndex` for a separator of one character, and
  `strings.Index`. Offsets count characters; the source's count bytes, and every slice it takes
  begins and ends with a character.

  * `join_split`: joining what was split gives the text back.
  * `index_eq_some_iff`: `strings.Index` finds the first occurrence.
  * `before`, `after`: a text cut at the first occurrence of a character, as `url.split` does it.
  * `split_append`: a text with the separator in it splits into the parts on its two sides.
-/
import Mathlib.Data.List.TakeWhile
import Mathlib.Tactic.Common

namespace Doodle.Go

/-- `strings.Split(s, sep)`. -/
def split (s : String) (sep : Char) : List String :=
  (s.toList.splitOn sep).map String.ofList

/-- `strings.Join(ss, sep)`. -/
def join (ss : List String) (sep : Char) : String :=
  String.ofList ([sep].intercalate (ss.map String.toList))

/-- `s[n:]`, for an `n` that counts whole characters. -/
def sliceFrom (s : String) (n : Nat) : String := String.ofList (s.toList.drop n)

/-- `s[:n]`, for an `n` that counts whole characters. -/
def sliceTo (s : String) (n : Nat) : String := String.ofList (s.toList.take n)

/-- `strings.LastIndex(s, c)`, `none` for -1. -/
def lastIndex (s : String) (c : Char) : Option Nat :=
  (s.toList.reverse.idxOf? c).map fun i => s.length - 1 - i

/-- `strings.Index(s, t)`, `none` for -1. -/
def index (s t : String) : Option Nat :=
  (List.range (s.length + 1)).find? fun i => t.toList.isPrefixOf (s.toList.drop i)

theorem join_split (s : String) (sep : Char) : join (split s sep) sep = s := by
  unfold join split
  rw [List.map_map]
  have hid : String.toList ∘ String.ofList = id := by
    funext l
    simp
  rw [hid, List.map_id, List.intercalate_splitOn, String.ofList_toList]

theorem split_of_not_mem {s : String} {sep : Char} (h : sep ∉ s.toList) : split s sep = [s] := by
  unfold split
  rw [List.splitOn_eq_singleton h]
  simp

/-- A separator between two texts separates their parts. -/
theorem split_append (a b : String) (sep : Char) :
    split (a ++ String.singleton sep ++ b) sep = split a sep ++ split b sep := by
  unfold split
  rw [String.toList_append, String.toList_append, String.toList_singleton, List.append_assoc,
    List.singleton_append, List.splitOn, List.splitOnP_append_cons _ _ (by simp), List.map_append]
  rfl

theorem lastIndex_of_not_mem {s : String} {c : Char} (h : c ∉ s.toList) : lastIndex s c = none := by
  unfold lastIndex
  rw [List.idxOf?_eq_none_iff.mpr (by simpa using h), Option.map_none]

theorem sliceFrom_append (a b : String) : sliceFrom (a ++ b) a.length = b := by
  unfold sliceFrom
  rw [String.toList_append, ← String.length_toList, List.drop_left, String.ofList_toList]

theorem index_eq_some_iff {s t : String} {n : Nat} : index s t = some n ↔
    n ≤ s.length ∧ t.toList <+: s.toList.drop n ∧ ∀ m < n, ¬ t.toList <+: s.toList.drop m := by
  unfold index
  rw [List.find?_range_eq_some]
  simp only [List.isPrefixOf_iff_prefix, List.mem_range, Bool.not_eq_true', Nat.lt_succ_iff,
    ← Bool.not_eq_true]
  tauto

/-- A text without `c` at the start of another lies before its first `c`. -/
theorem isPrefix_of_isPrefix_append_cons {c : Char} {l a b : List Char} (hl : c ∉ l)
    (h : l <+: a ++ c :: b) : l <+: a := by
  have hac : a ++ [c] <+: a ++ c :: b := ⟨b, by simp⟩
  have hmem : ∀ {t : List Char}, a ++ [c] <+: t → c ∈ t := fun ht => ht.subset (by simp)
  rcases List.prefix_or_prefix_of_prefix h hac with h | h
  · rcases List.prefix_concat_iff.mp h with rfl | h
    · exact absurd (hmem (List.prefix_refl _)) hl
    · exact h
  · exact absurd (hmem h) hl

/-! ## Cutting at the first occurrence -/

/-- The text before the first `c`, or all of it. -/
def before (c : Char) (l : List Char) : List Char := l.takeWhile (· != c)

/-- The text after the first `c`. -/
def after (c : Char) (l : List Char) : List Char := (l.dropWhile (· != c)).drop 1

section Cut

variable {c : Char} {l : List Char}

theorem not_mem_before (c : Char) (l : List Char) : c ∉ before c l := fun h => by
  simpa using List.mem_takeWhile_imp h

private theorem bne_of_not_mem (h : c ∉ l) : ∀ x ∈ l, (x != c) = true := fun x hx => by
  simpa using fun hxc : x = c => h (hxc ▸ hx)

theorem before_append_of_not_mem (h : c ∉ l) (r : List Char) :
    before c (l ++ r) = l ++ before c r :=
  List.takeWhile_append_of_pos (bne_of_not_mem h)

theorem after_append_of_not_mem (h : c ∉ l) (r : List Char) : after c (l ++ r) = after c r := by
  rw [after, List.dropWhile_append_of_pos (bne_of_not_mem h), after]

theorem before_of_not_mem (h : c ∉ l) : before c l = l := by
  have := before_append_of_not_mem h []
  rwa [List.append_nil, show before c [] = [] from rfl, List.append_nil] at this

theorem after_of_not_mem (h : c ∉ l) : after c l = [] := by
  have := after_append_of_not_mem h []
  rwa [List.append_nil] at this

theorem before_append_cons (h : c ∉ l) (r : List Char) : before c (l ++ c :: r) = l := by
  rw [before_append_of_not_mem h]
  simp [before]

theorem after_append_cons (h : c ∉ l) (r : List Char) : after c (l ++ c :: r) = r := by
  rw [after_append_of_not_mem h]
  simp [after]

theorem before_append_after (h : c ∈ l) : before c l ++ c :: after c l = l := by
  obtain ⟨a, b, rfl, ha⟩ := List.eq_append_cons_of_mem h
  rw [before_append_cons ha, after_append_cons ha]

theorem before_append_of_mem (h : c ∈ l) (r : List Char) : before c (l ++ r) = before c l := by
  conv_lhs => rw [← before_append_after h, List.append_assoc, List.cons_append]
  exact before_append_cons (not_mem_before c l) _

theorem after_append_of_mem (h : c ∈ l) (r : List Char) : after c (l ++ r) = after c l ++ r := by
  conv_lhs => rw [← before_append_after h, List.append_assoc, List.cons_append]
  exact after_append_cons (not_mem_before c l) _

end Cut

example : split "/api/a/10.0.0.1/80" '/' = ["", "api", "a", "10.0.0.1", "80"] := by decide

example : lastIndex "/a?b?c" '?' = some 4 := by decide

end Doodle.Go
