/-
  The expiring cache of `_vendor/github.com/dearcode/crab/cache/cache.go`, over any value type.

  The source keeps a map `vars` from keys to entries and a list `ll` of the same entries,
  newest at the front. Both hold the same entries, so the model keeps `ll` only and reads
  `vars[key]` off it (`lookup`). The clock is an argument: `now` is what `time.Now().Unix()`
  returned inside that call. Nothing is assumed about successive clock readings.

  `table` is the memo table a cache stands for. `evict` shrinks it and `add` binds one key.
  `Aged` is what holds of the ages while the clock does not go back: the entries are sorted by age,
  so that eviction leaves the young ones only (`Aged.lt_of_mem_evict`).
-/
import Doodle.Lib.Memo
import Mathlib.Data.List.DropRight

namespace Doodle.Crab

open Doodle.Lib

variable {α : Type}

/-- `cacheEntry`; its list element `le` is the position in `ll`. -/
structure CacheEntry (α : Type) where
  key : String
  last : Int
  val : α

/-- `Cache`: `ll` front to back, newest entry first. -/
structure Cache (α : Type) where
  timeout : Int
  ll : List (CacheEntry α)

def newCache (timeout : Int) : Cache α := ⟨timeout, []⟩

/-- `c.vars[key]`. -/
def Cache.lookup (c : Cache α) (key : String) : Option α :=
  (c.ll.find? fun e => e.key == key).map fun e => e.val

/-- Entries are removed from the back until one is younger than the timeout. -/
def Cache.evict (c : Cache α) (now : Int) : Cache α :=
  { c with ll := c.ll.rdropWhile fun e => !decide (now - c.timeout < e.last) }

/-- `Get`: evict, then look the key up. -/
def Cache.get (c : Cache α) (now : Int) (key : String) : Cache α × Option α :=
  (c.evict now, (c.evict now).lookup key)

/-- `Add`: a bound key gets the new value and keeps its age. -/
def Cache.add (c : Cache α) (now : Int) (key : String) (val : α) : Cache α :=
  if (c.lookup key).isSome then
    { c with ll := c.ll.map fun e => if e.key == key then { e with val := val } else e }
  else { c with ll := ⟨key, now, val⟩ :: c.ll }

/-! ## The memo table of a cache -/

/-- The bindings of a cache, as a memo table. -/
def Cache.table (c : Cache α) : Memo String α := c.lookup

theorem find?_eq_some_of_prefix {β : Type} {p : β → Bool} {l₁ l₂ : List β} {x : β}
    (h : l₁ <+: l₂) (hf : l₁.find? p = some x) : l₂.find? p = some x := by
  obtain ⟨t, rfl⟩ := h
  rw [List.find?_append, hf]
  rfl

/-- Eviction only drops bindings. -/
theorem shrinks_evict (c : Cache α) (now : Int) : Shrinks (c.evict now).table c.table := by
  intro key
  cases hf : (c.evict now).ll.find? (fun e => e.key == key) with
  | none => exact Or.inr (by simp [Cache.table, Cache.lookup, hf])
  | some e =>
    left
    have := find?_eq_some_of_prefix (List.rdropWhile_prefix _ c.ll) hf
    simp [Cache.table, Cache.lookup, hf, this]

theorem find?_map_setVal (l : List (CacheEntry α)) (key k : String) (val : α) :
    ((l.map fun e => if e.key == key then { e with val := val } else e).find?
      fun e => e.key == k).map (fun e => e.val) =
      if k = key then (l.find? fun e => e.key == key).map fun _ => val
      else (l.find? fun e => e.key == k).map fun e => e.val := by
  induction l with
  | nil => simp
  | cons e l ih =>
    by_cases he : e.key = key
    · by_cases hk : k = key
      · simp [he, hk]
      · have hk' : ¬ key = k := fun h => hk h.symm
        simpa [he, hk, hk'] using ih
    · by_cases hk : k = key
      · subst hk
        simpa [he] using ih
      · by_cases hek : e.key = k
        · simp [hek, hk]
        · simpa [he, hek, hk] using ih

/-- Adding binds the one key. -/
theorem table_add (c : Cache α) (now : Int) (key : String) (val : α) :
    (c.add now key val).table = c.table.set key val := by
  funext k
  unfold Cache.add Cache.table Memo.set
  split
  · next h =>
    obtain ⟨e, he, -⟩ := Option.map_eq_some_iff.mp (Option.isSome_iff_exists.mp h).choose_spec
    simp only [Cache.lookup, find?_map_setVal, he]
    rfl
  · by_cases hk : k = key
    · subst hk; simp [Cache.lookup]
    · have hk' : ¬ key = k := fun h => hk h.symm
      simp [Cache.lookup, hk, hk']

/-- An entry younger than the timeout at every reading of the clock is never evicted. -/
theorem evict_eq_self (c : Cache α) (now : Int) (h : ∀ e ∈ c.ll, now - c.timeout < e.last) :
    c.evict now = c := by
  unfold Cache.evict
  have : c.ll.rdropWhile (fun e => !decide (now - c.timeout < e.last)) = c.ll := by
    rw [List.rdropWhile_eq_self_iff]
    intro hl
    simp [h _ (List.getLast_mem hl)]
  rw [this]

/-! ## Ages -/

/-- Newest entry first, and none from the future. -/
structure Cache.Aged (c : Cache α) (now : Int) : Prop where
  sorted : c.ll.Pairwise fun e f => f.last ≤ e.last
  past : ∀ e ∈ c.ll, e.last ≤ now

theorem Cache.Aged.mono {c : Cache α} {now now' : Int} (h : c.Aged now) (hle : now ≤ now') :
    c.Aged now' :=
  ⟨h.sorted, fun e he => Int.le_trans (h.past e he) hle⟩

theorem mem_of_mem_evict {c : Cache α} {now : Int} {e : CacheEntry α} (h : e ∈ (c.evict now).ll) :
    e ∈ c.ll :=
  (List.rdropWhile_prefix _ c.ll).mem h

theorem Cache.Aged.evict {c : Cache α} {now : Int} (h : c.Aged now) (now' : Int) :
    (c.evict now').Aged now :=
  ⟨h.sorted.sublist (List.rdropWhile_prefix _ c.ll).sublist, fun e he =>
    h.past e (mem_of_mem_evict he)⟩

/-- What eviction leaves is younger than the timeout: the oldest entry left is, and it is at the
    back. -/
theorem Cache.Aged.lt_of_mem_evict {c : Cache α} {now now' : Int} (h : c.Aged now)
    {e : CacheEntry α} (he : e ∈ (c.evict now').ll) : now' - c.timeout < e.last := by
  have hne : (c.evict now').ll ≠ [] := List.ne_nil_of_mem he
  have hlast := List.rdropWhile_last_not
    (fun e : CacheEntry α => !decide (now' - c.timeout < e.last)) c.ll hne
  simp only [Bool.not_eq_true', decide_eq_false_iff_not, not_not] at hlast
  refine Int.lt_of_lt_of_le hlast ?_
  have hsorted := (h.evict now').sorted
  rw [← List.dropLast_append_getLast hne, List.pairwise_append] at hsorted
  rw [← List.dropLast_append_getLast hne, List.mem_append, List.mem_singleton] at he
  rcases he with he | rfl
  · exact hsorted.2.2 e he _ (List.mem_singleton_self _)
  · exact Int.le_refl _

/-- A value looked up is that of an entry. -/
theorem exists_mem_of_lookup {c : Cache α} {key : String} {v : α} (h : c.lookup key = some v) :
    ∃ e ∈ c.ll, e.key = key ∧ e.val = v := by
  obtain ⟨e, he, hv⟩ := Option.map_eq_some_iff.mp h
  exact ⟨e, List.mem_of_find?_eq_some he, by simpa using List.find?_some he, hv⟩

/-- After an entry is added the cache has it and what it had. -/
theorem mem_of_mem_add {c : Cache α} {now : Int} {key : String} {val : α} {e : CacheEntry α}
    (h : e ∈ (c.add now key val).ll) : e ∈ c.ll ∨ e.key = key ∧ e.val = val := by
  unfold Cache.add at h
  split at h
  · obtain ⟨e', he', rfl⟩ := List.mem_map.mp h
    by_cases hk : e'.key = key
    · exact Or.inr (by simp [hk])
    · exact Or.inl (by simpa [hk] using he')
  · rcases List.mem_cons.mp h with rfl | h
    · exact Or.inr ⟨rfl, rfl⟩
    · exact Or.inl h

/-- Adding under a key that is not bound puts an entry in front. -/
theorem ll_add_of_lookup_eq_none {c : Cache α} {key : String} (h : c.lookup key = none) (now : Int)
    (v : α) : (c.add now key v).ll = ⟨key, now, v⟩ :: c.ll := by
  simp [Cache.add, h]

theorem Cache.Aged.add {c : Cache α} {now : Int} (h : c.Aged now) {key : String}
    (hnone : c.lookup key = none) (v : α) : (c.add now key v).Aged now := by
  constructor
  · rw [ll_add_of_lookup_eq_none hnone]
    exact List.pairwise_cons.mpr ⟨h.past, h.sorted⟩
  · rw [ll_add_of_lookup_eq_none hnone]
    intro e he
    rcases List.mem_cons.mp he with rfl | he
    · exact Int.le_refl _
    · exact h.past e he

end Doodle.Crab
