/-
  Ranging over a map and deleting each entry after its visit, for arbitrary keys and values.

  * `entries_perm`: a map is the entry of a key and what is left without it.
  * `rangeDelete_spec`: in any order of the keys, every entry is visited once and none is left.
-/
import Mathlib.Data.List.AList

namespace Doodle.Lib

variable {K V A : Type} [DecidableEq K]

/-- The entries of `m` are what its lookup gives and the entries without it. -/
theorem entries_perm (m : AList fun _ : K => V) (k : K) :
    m.entries.Perm (((m.lookup k).map (Sigma.mk k)).toList ++ (m.erase k).entries) := by
  cases hl : m.lookup k with
  | none =>
    have hnot : k ∉ m.entries.keys := AList.lookup_eq_none.mp hl
    exact .of_eq (List.kerase_of_notMem_keys hnot).symm
  | some v =>
    have hk : k ∈ m.entries.keys := AList.lookup_isSome.mp (by rw [hl]; rfl)
    obtain ⟨v', l₁, l₂, -, hsplit, herase⟩ := List.exists_of_kerase hk
    have hv : v' ∈ m.lookup k := by
      rw [AList.mem_lookup_iff, hsplit]
      exact List.mem_append_right _ List.mem_cons_self
    obtain rfl : v = v' := Option.some.inj (hl.symm.trans hv)
    have hleft : (m.erase k).entries = l₁ ++ l₂ := herase
    rw [hleft, hsplit]
    exact List.perm_middle

/-- Visit the keys of a list, as far as they are in the map, and delete each after its visit. -/
def rangeDelete (body : K → V → A → A) :
    List K → (AList fun _ : K => V) → A → (AList fun _ : K => V) × A
  | [], m, acc => (m, acc)
  | k :: todo, m, acc =>
    match m.lookup k with
    | some v => rangeDelete body todo (m.erase k) (body k v acc)
    | none => rangeDelete body todo m acc

theorem rangeDelete_spec (body : K → V → A → A) {order : List K} {m : AList fun _ : K => V}
    (h : order.Perm m.keys) (acc : A) : ∃ l : List (Σ _ : K, V), l.Perm m.entries ∧
      rangeDelete body order m acc = (∅, l.foldl (fun acc e => body e.1 e.2 acc) acc) := by
  induction order generalizing m acc with
  | nil =>
    have hnil : m.entries = [] := List.map_eq_nil_iff.mp (List.nil_perm.mp h)
    exact ⟨[], .of_eq hnil.symm, Prod.ext (AList.ext hnil) rfl⟩
  | cons k todo ih =>
    have hk : k ∈ m := h.subset List.mem_cons_self
    obtain ⟨v, hv⟩ := Option.isSome_iff_exists.mp (AList.lookup_isSome.mpr hk)
    have htodo : todo.Perm (m.erase k).keys := by
      rw [AList.keys_erase]
      simpa using h.erase k
    obtain ⟨l, hl, hrest⟩ := ih htodo (body k v acc)
    have hperm := entries_perm m k
    rw [hv] at hperm
    refine ⟨⟨k, v⟩ :: l, (hl.cons _).trans hperm.symm, ?_⟩
    rw [rangeDelete, hv]
    exact hrest

end Doodle.Lib
