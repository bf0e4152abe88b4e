/-
  Pages of a result whose order is open.

  A `Window` is an offset and a number of rows, or all rows. The rows of a result come in some
  order, and a reader that cannot read one row of a page gives up the page. `exists_page`: a given
  row can be on a page that is read when the offset is inside the result and there are enough rows
  that can be read to fill the page.
-/
import Mathlib.Data.List.Perm.Basic

namespace Doodle.Lib

/-- Offset and number of rows; `none` is all rows. -/
abbrev Window := Option (Nat × Nat)

namespace Window

variable {α : Type}

def page : Window → List α → List α
  | none, rows => rows
  | some (offset, count), rows => (rows.drop offset).take count

/-- There are enough rows with `ok` for a page of them. -/
def Room (ok : α → Bool) (rows : List α) : Window → Prop
  | none => ∀ r ∈ rows, ok r = true
  | some (offset, count) =>
    offset < rows.length ∧ 0 < count ∧ min count (rows.length - offset) ≤ rows.countP ok

theorem page_sublist (w : Window) (rows : List α) : (w.page rows).Sublist rows := by
  cases w with
  | none => exact List.Sublist.refl _
  | some w => exact (List.take_sublist _ _).trans (List.drop_sublist _ _)

theorem page_eq_nil_of_length (w : Window) {rows l : List α} (hlen : l.length = rows.length) :
    w.page l = [] ↔ w.page rows = [] := by
  cases w with
  | none => simp only [page, ← List.length_eq_zero_iff, hlen]
  | some w =>
    simp only [page, List.take_eq_nil_iff, List.drop_eq_nil_iff, hlen]

theorem page_eq_nil_of_perm (w : Window) {rows l : List α} (hperm : l.Perm rows) :
    w.page l = [] ↔ w.page rows = [] :=
  w.page_eq_nil_of_length hperm.length_eq

theorem room_of_page {ok : α → Bool} {rows l : List α} {x : α} {w : Window} (hperm : l.Perm rows)
    (hx : x ∈ w.page l) (hok : ∀ r ∈ w.page l, ok r = true) : w.Room ok rows := by
  cases w with
  | none => exact fun r hr => hok r (hperm.mem_iff.mpr hr)
  | some w =>
    obtain ⟨offset, count⟩ := w
    have hpos : 0 < ((l.drop offset).take count).length := List.length_pos_of_mem hx
    have hcount : ((l.drop offset).take count).countP ok = ((l.drop offset).take count).length :=
      List.countP_eq_length.mpr hok
    have hle : ((l.drop offset).take count).countP ok ≤ l.countP ok :=
      (page_sublist (some (offset, count)) l).countP_le
    rw [hcount, hperm.countP_eq] at hle
    rw [List.length_take, List.length_drop, hperm.length_eq] at hpos hle
    exact ⟨by omega, by omega, hle⟩

/-- Rows put where the window is fill it. -/
theorem page_append (sel rest : List α) {offset count : Nat} (hoffset : offset ≤ rest.length)
    (hsel : sel.length = min count (sel.length + rest.length - offset)) :
    page (some (offset, count)) (rest.take offset ++ (sel ++ rest.drop offset)) = sel := by
  have hdrop : (rest.take offset ++ (sel ++ rest.drop offset)).drop offset =
      sel ++ rest.drop offset := by
    have hlen : (rest.take offset).length = offset := List.length_take_of_le hoffset
    rw [List.drop_append_of_le_length (by omega), List.drop_of_length_le (by omega),
      List.nil_append]
  show ((rest.take offset ++ (sel ++ rest.drop offset)).drop offset).take count = sel
  rw [hdrop]
  rcases Nat.lt_or_ge sel.length count with hlt | hge
  · have hnil : rest.drop offset = [] := List.drop_eq_nil_of_le (by omega)
    rw [hnil, List.append_nil, List.take_of_length_le (by omega)]
  · rw [List.take_append_of_le_length hge, List.take_of_length_le (by omega)]

/-- Some order fills the page with the rows that stand first in `good`. -/
theorem exists_perm_page (good bad : List α) {offset count : Nat}
    (hoffset : offset ≤ good.length + bad.length)
    (hgood : min count (good.length + bad.length - offset) ≤ good.length) :
    ∃ l : List α, l.Perm (good ++ bad) ∧ page (some (offset, count)) l =
      good.take (min count (good.length + bad.length - offset)) := by
  generalize hk : min count (good.length + bad.length - offset) = k at hgood
  have hsel : (good.take k).length = k := List.length_take_of_le hgood
  have hrest : (good.drop k ++ bad).length = good.length - k + bad.length := by simp
  refine ⟨(good.drop k ++ bad).take offset ++ (good.take k ++ (good.drop k ++ bad).drop offset),
    ?_, page_append _ _ (by omega) (by omega)⟩
  have hfront := List.perm_append_comm_assoc ((good.drop k ++ bad).take offset) (good.take k)
    ((good.drop k ++ bad).drop offset)
  rw [List.take_append_drop, ← List.append_assoc, ← List.append_assoc, List.take_append_drop,
    List.append_assoc] at hfront
  exact hfront

theorem page_of_room {ok : α → Bool} {rows : List α} {x : α} {w : Window} (hx : x ∈ rows)
    (hokx : ok x = true) (hroom : w.Room ok rows) :
    ∃ l : List α, l.Perm rows ∧ x ∈ w.page l ∧ ∀ r ∈ w.page l, ok r = true := by
  cases w with
  | none => exact ⟨rows, List.Perm.refl _, hx, hroom⟩
  | some w =>
    obtain ⟨offset, count⟩ := w
    obtain ⟨hoffset, hcount, hmin⟩ := hroom
    -- the rows with `ok`, with `x` in front, and then the others
    obtain ⟨s, t, hst⟩ := List.append_of_mem (List.mem_filter.mpr ⟨hx, hokx⟩)
    have hgood : (x :: (s ++ t)).Perm (rows.filter ok) := hst ▸ List.perm_middle.symm
    have hall : ∀ r ∈ x :: (s ++ t), ok r = true := fun r hr =>
      (List.mem_filter.mp (hgood.mem_iff.mp hr)).2
    have hperm : (x :: (s ++ t) ++ rows.filter fun r => !ok r).Perm rows :=
      (hgood.append_right _).trans (List.filter_append_perm ok rows)
    have hlen := hperm.length_eq
    have hgoodLen := hgood.length_eq
    rw [List.length_append] at hlen
    rw [← List.countP_eq_length_filter] at hgoodLen
    obtain ⟨l, hl, hpage⟩ := exists_perm_page (x :: (s ++ t)) (rows.filter fun r => !ok r)
      (show offset ≤ _ by omega) (show min count _ ≤ _ by rw [hlen]; omega)
    refine ⟨l, hl.trans hperm, ?_, fun r hr => ?_⟩
    · rw [hpage, hlen]
      obtain ⟨k, hk⟩ : ∃ k, min count (rows.length - offset) = k + 1 :=
        Nat.exists_eq_succ_of_ne_zero (by omega)
      rw [hk, List.take_succ_cons]
      exact List.mem_cons_self
    · rw [hpage] at hr
      exact hall r (List.mem_of_mem_take hr)

/-- A row with `ok` can be on a page of rows with `ok` exactly when there is room. -/
theorem exists_page {ok : α → Bool} {rows : List α} {x : α} (w : Window) (hx : x ∈ rows)
    (hokx : ok x = true) :
    (∃ l : List α, l.Perm rows ∧ x ∈ w.page l ∧ ∀ r ∈ w.page l, ok r = true) ↔ w.Room ok rows := by
  constructor
  · rintro ⟨l, hperm, hmem, hok⟩
    exact room_of_page hperm hmem hok
  · exact page_of_room hx hokx

end Window

end Doodle.Lib
