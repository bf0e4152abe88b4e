/-
  Database tables with an auto-increment id and one unique key.

  A `Schema` says what of a row is its id and what its unique key. A `Table` carries its
  constraints as fields: rows stand in the order of their ids, ids are below the next one, and no
  key occurs twice. So two tables with the same rows list them alike (`filter_eq_of_mem_iff`).
  The three writes are `upsert` (insert, or touch the row that has the key), `delete` and
  `update`, which fails when it would give two rows one key.

  A table is read as the relation `Holds` between ids and keys. `holds_upsert` says that an
  upsert adds the one pair of `idOf` and the key, `idOf_upsert` that repeating it changes nothing
  more, and `mem_upsert` that rows told apart by their key are left alone.
-/
import Mathlib.Data.List.Nodup
import Mathlib.Data.List.Perm.Basic

namespace Doodle.Lib

variable {R K : Type}

/-- The columns of a row that identify it. -/
structure Schema (R K : Type) where
  id : R → Int
  key : R → K

/-- A table: its rows and the next id. -/
structure Table (σ : Schema R K) where
  rows : List R
  next : Int
  id_lt : ∀ r ∈ rows, σ.id r < next
  sorted : rows.Pairwise fun r r' => σ.id r < σ.id r'
  nodup_key : (rows.map σ.key).Nodup

/-- A row to insert: its key, the row once it has an id, and what a row that already has the key
    becomes. -/
structure Entry (σ : Schema R K) where
  key : K
  make : Int → R
  touch : R → R
  id_make : ∀ n, σ.id (make n) = n
  key_make : ∀ n, σ.key (make n) = key
  id_touch : ∀ r, σ.id (touch r) = σ.id r
  key_touch : ∀ r, σ.key (touch r) = σ.key r

/-- A row to insert where no row has the key. -/
def Entry.fresh {σ : Schema R K} (key : K) (make : Int → R) (id_make : ∀ n, σ.id (make n) = n)
    (key_make : ∀ n, σ.key (make n) = key) : Entry σ :=
  ⟨key, make, id, id_make, key_make, fun _ => rfl, fun _ => rfl⟩

namespace Table

variable {σ : Schema R K}

/-- A table without rows. -/
def empty (σ : Schema R K) : Table σ where
  rows := []
  next := 1
  id_lt := by simp
  sorted := by simp
  nodup_key := by simp

instance : Inhabited (Table σ) := ⟨empty σ⟩

/-- The rows `f 0`, …, `f (n - 1)`, with ids counted from `base`. -/
def ofRange (σ : Schema R K) (base : Int) (n : Nat) (f : Nat → R)
    (hid : ∀ i, σ.id (f i) = base + i)
    (hkey : ∀ i < n, ∀ j < n, σ.key (f i) = σ.key (f j) → i = j) : Table σ where
  rows := (List.range n).map f
  next := base + n
  id_lt r hr := by
    obtain ⟨i, hi, rfl⟩ := List.mem_map.mp hr
    rw [List.mem_range] at hi
    rw [hid]
    omega
  sorted := by
    refine List.pairwise_map.mpr (List.pairwise_lt_range.imp fun hlt => ?_)
    rw [hid, hid]
    omega
  nodup_key := by
    rw [List.map_map]
    refine (List.nodup_map_iff_inj_on List.nodup_range).mpr fun i hi j hj h => ?_
    exact hkey i (List.mem_range.mp hi) j (List.mem_range.mp hj) h

/-- A row of this id and this key is in the table. -/
def Holds (t : Table σ) (n : Int) (k : K) : Prop := ∃ r ∈ t.rows, σ.id r = n ∧ σ.key r = k

/-- A row of this key is in the table. -/
def Has (t : Table σ) (k : K) : Prop := ∃ n, t.Holds n k

theorem nodup_id (t : Table σ) : (t.rows.map σ.id).Nodup :=
  List.pairwise_map.mpr (t.sorted.imp fun h => Int.ne_of_lt h)

theorem eq_of_id (t : Table σ) {r r' : R} (hr : r ∈ t.rows) (hr' : r' ∈ t.rows)
    (h : σ.id r = σ.id r') : r = r' :=
  List.inj_on_of_nodup_map t.nodup_id hr hr' h

/-- Rows that two tables share are listed alike. -/
theorem filter_eq_of_mem_iff (t t' : Table σ) (p : R → Bool)
    (h : ∀ r, p r → (r ∈ t.rows ↔ r ∈ t'.rows)) : t.rows.filter p = t'.rows.filter p := by
  have hnodup : ∀ u : Table σ, (u.rows.filter p).Nodup := fun u =>
    (List.Nodup.of_map _ u.nodup_id).filter _
  refine List.Perm.eq_of_pairwise ?_ (t.sorted.filter p) (t'.sorted.filter p) ?_
  · intro a b _ _ hab hba
    omega
  · refine (List.perm_ext_iff_of_nodup (hnodup t) (hnodup t')).mpr fun r => ?_
    rw [List.mem_filter, List.mem_filter]
    exact and_congr_left (h r)

theorem eq_of_key (t : Table σ) {r r' : R} (hr : r ∈ t.rows) (hr' : r' ∈ t.rows)
    (h : σ.key r = σ.key r') : r = r' :=
  List.inj_on_of_nodup_map t.nodup_key hr hr' h

/-- A test that no two rows pass picks at most one row. -/
theorem length_filter_le_one (t : Table σ) (p : R → Bool)
    (hp : ∀ r ∈ t.rows, ∀ r' ∈ t.rows, p r → p r' → r = r') : (t.rows.filter p).length ≤ 1 := by
  have hsorted := t.sorted.filter p
  have heq : ∀ r ∈ t.rows.filter p, ∀ r' ∈ t.rows.filter p, r = r' := by
    intro r hr r' hr'
    rw [List.mem_filter] at hr hr'
    exact hp r hr.1 r' hr'.1 hr.2 hr'.2
  generalize t.rows.filter p = l at hsorted heq ⊢
  rcases l with _ | ⟨a, _ | ⟨b, l⟩⟩
  · exact Nat.zero_le _
  · exact Nat.le_refl _
  · have hlt := List.rel_of_pairwise_cons hsorted List.mem_cons_self
    have hab := heq a List.mem_cons_self b (List.mem_cons_of_mem _ List.mem_cons_self)
    rw [hab] at hlt
    omega

/-! ## Writes -/

/-- The rows that satisfy `p` go. -/
def delete (t : Table σ) (p : R → Bool) : Table σ where
  rows := t.rows.filter fun r => !p r
  next := t.next
  id_lt r hr := t.id_lt r (List.mem_of_mem_filter hr)
  sorted := t.sorted.filter _
  nodup_key := t.nodup_key.sublist (List.filter_sublist.map _)

/-- An insert that failed still takes an id. -/
def skip (t : Table σ) : Table σ where
  rows := t.rows
  next := t.next + 1
  id_lt r hr := by
    have := t.id_lt r hr
    omega
  sorted := t.sorted
  nodup_key := t.nodup_key

variable [DecidableEq K]

/-- The id the key has, or would get. -/
def idOf (t : Table σ) (k : K) : Int :=
  ((t.rows.find? fun r => σ.key r = k).map σ.id).getD t.next

/-- What an upsert does to a row that is there. -/
def touched (e : Entry σ) (r : R) : R := if σ.key r = e.key then e.touch r else r

theorem id_touched (e : Entry σ) (r : R) : σ.id (touched e r) = σ.id r := by
  unfold touched
  split
  · exact e.id_touch r
  · rfl

theorem key_touched (e : Entry σ) (r : R) : σ.key (touched e r) = σ.key r := by
  unfold touched
  split
  · exact e.key_touch r
  · rfl

/-- The rows after an upsert. -/
def upsertRows (t : Table σ) (e : Entry σ) : List R :=
  if t.rows.any fun r => σ.key r = e.key then t.rows.map (touched e)
  else t.rows ++ [e.make t.next]

theorem upsertRows_of_mem (t : Table σ) (e : Entry σ) {r : R} (hr : r ∈ t.rows)
    (hk : σ.key r = e.key) : t.upsertRows e = t.rows.map (touched e) :=
  if_pos (List.any_eq_true.mpr ⟨r, hr, decide_eq_true hk⟩)

theorem upsertRows_of_not_mem (t : Table σ) (e : Entry σ)
    (h : ∀ r ∈ t.rows, σ.key r ≠ e.key) : t.upsertRows e = t.rows ++ [e.make t.next] :=
  if_neg (by simpa using h)

/-- Either some row has the key, or none. -/
theorem key_cases (t : Table σ) (k : K) :
    (∃ r ∈ t.rows, σ.key r = k) ∨ ∀ r ∈ t.rows, σ.key r ≠ k := by
  by_cases h : ∃ r ∈ t.rows, σ.key r = k
  · exact .inl h
  · exact .inr fun r hr hk => h ⟨r, hr, hk⟩

/-- Insert the entry, or touch the row that has its key. The counter moves either way. -/
def upsert (t : Table σ) (e : Entry σ) : Table σ where
  rows := t.upsertRows e
  next := t.next + 1
  id_lt r hr := by
    rcases t.key_cases e.key with ⟨x, hx, hk⟩ | h
    · rw [upsertRows_of_mem t e hx hk] at hr
      obtain ⟨y, hy, rfl⟩ := List.mem_map.mp hr
      have := t.id_lt y hy
      rw [id_touched]
      omega
    · rw [upsertRows_of_not_mem t e h] at hr
      rcases List.mem_append.mp hr with hr | hr
      · have := t.id_lt r hr
        omega
      · rw [List.mem_singleton.mp hr, e.id_make]
        omega
  sorted := by
    rcases t.key_cases e.key with ⟨x, hx, hk⟩ | h
    · rw [upsertRows_of_mem t e hx hk, List.pairwise_map]
      refine t.sorted.imp fun hlt => ?_
      rwa [id_touched, id_touched]
    · rw [upsertRows_of_not_mem t e h, List.pairwise_append]
      refine ⟨t.sorted, List.pairwise_singleton _ _, fun x hx y hy => ?_⟩
      rw [List.mem_singleton.mp hy, e.id_make]
      exact t.id_lt x hx
  nodup_key := by
    rcases t.key_cases e.key with ⟨x, hx, hk⟩ | h
    · rw [upsertRows_of_mem t e hx hk, List.map_map]
      exact (List.map_congr_left fun r _ => key_touched e r) ▸ t.nodup_key
    · rw [upsertRows_of_not_mem t e h, List.map_append, List.map_singleton, List.nodup_append]
      refine ⟨t.nodup_key, List.nodup_singleton _, ?_⟩
      rintro a ha b hb rfl
      obtain ⟨x, hx, rfl⟩ := List.mem_map.mp ha
      rw [List.mem_singleton, e.key_make] at hb
      exact h x hx hb

/-- An upsert leaves the rows alone when the row that has the key is not changed by a touch. -/
theorem upsert_rows_eq_iff (t : Table σ) (e : Entry σ) :
    (t.upsert e).rows = t.rows ↔ ∃ r ∈ t.rows, σ.key r = e.key ∧ e.touch r = r := by
  show t.upsertRows e = t.rows ↔ _
  rcases t.key_cases e.key with ⟨x, hx, hk⟩ | h
  · rw [upsertRows_of_mem t e hx hk]
    constructor
    · intro hmap
      have hall := List.map_eq_map_iff.mp (hmap.trans (List.map_id t.rows).symm)
      refine ⟨x, hx, hk, ?_⟩
      simpa [touched, hk] using hall x hx
    · rintro ⟨r, hr, hkr, htouch⟩
      refine (List.map_congr_left fun y hy => ?_).trans (List.map_id t.rows)
      unfold touched
      split
      · next hky => rw [t.eq_of_key hy hr (hky.trans hkr.symm), htouch, id]
      · rfl
  · rw [upsertRows_of_not_mem t e h]
    refine iff_of_false (fun hrows => ?_) ?_
    · have hlen := congrArg List.length hrows
      simp at hlen
    · rintro ⟨r, hr, hkr, -⟩
      exact h r hr hkr

/-- A second upsert of an entry leaves the rows of the first alone. -/
theorem upsert_upsert_rows (t : Table σ) (e : Entry σ)
    (htouch : ∀ r, e.touch (e.touch r) = e.touch r) (hmake : ∀ n, e.touch (e.make n) = e.make n) :
    ((t.upsert e).upsert e).rows = (t.upsert e).rows := by
  refine (upsert_rows_eq_iff _ e).mpr ?_
  show ∃ r ∈ t.upsertRows e, _
  rcases t.key_cases e.key with ⟨x, hx, hk⟩ | h
  · rw [upsertRows_of_mem t e hx hk]
    refine ⟨touched e x, List.mem_map_of_mem hx, (key_touched e x).trans hk, ?_⟩
    simp only [touched, if_pos hk, htouch]
  · rw [upsertRows_of_not_mem t e h]
    exact ⟨e.make t.next, by simp, e.key_make _, hmake _⟩

/-- Change the rows that satisfy `p`; `none` when two rows would then have one key. -/
def update (t : Table σ) (p : R → Bool) (f : R → R) (hid : ∀ r, σ.id (f r) = σ.id r) :
    Option (Table σ) :=
  let g := fun r => if p r then f r else r
  have hg : ∀ r, σ.id (g r) = σ.id r := fun r => by
    simp only [g]
    split
    · exact hid r
    · rfl
  if h : ((t.rows.map g).map σ.key).Nodup then
    some
      { rows := t.rows.map g
        next := t.next
        id_lt := fun r hr => by
          obtain ⟨x, hx, rfl⟩ := List.mem_map.mp hr
          rw [hg]
          exact t.id_lt x hx
        sorted := by
          refine List.pairwise_map.mpr (t.sorted.imp fun hlt => ?_)
          rwa [hg, hg]
        nodup_key := h }
  else none

theorem update_rows {t t' : Table σ} {p : R → Bool} {f : R → R}
    {hid : ∀ r, σ.id (f r) = σ.id r} (h : t.update p f hid = some t') :
    t'.rows = t.rows.map fun r => if p r then f r else r := by
  unfold update at h
  dsimp only at h
  split at h
  · cases h
    rfl
  · cases h

theorem update_next {t t' : Table σ} {p : R → Bool} {f : R → R}
    {hid : ∀ r, σ.id (f r) = σ.id r} (h : t.update p f hid = some t') : t'.next = t.next := by
  unfold update at h
  dsimp only at h
  split at h
  · cases h
    rfl
  · cases h

/-- An update that leaves the keys as they are succeeds. -/
theorem update_of_key (t : Table σ) {p : R → Bool} {f : R → R} (hid : ∀ r, σ.id (f r) = σ.id r)
    (hkey : ∀ r ∈ t.rows, p r → σ.key (f r) = σ.key r) : ∃ t', t.update p f hid = some t' ∧
      t'.rows = t.rows.map (fun r => if p r then f r else r) ∧ t'.next = t.next := by
  have hmap : (t.rows.map fun r => if p r then f r else r).map σ.key = t.rows.map σ.key := by
    rw [List.map_map]
    refine List.map_congr_left fun r hr => ?_
    show σ.key (if p r then f r else r) = σ.key r
    by_cases h : p r = true
    · rw [if_pos h]
      exact hkey r hr h
    · rw [if_neg h]
  have hnodup : ((t.rows.map fun r => if p r then f r else r).map σ.key).Nodup :=
    hmap ▸ t.nodup_key
  exact ⟨_, dif_pos hnodup, rfl, rfl⟩

/-- An update of at most one row fails when another row has the key it would get. -/
theorem update_eq_none_iff (t : Table σ) {p : R → Bool} {f : R → R}
    (hid : ∀ r, σ.id (f r) = σ.id r)
    (hp : ∀ r ∈ t.rows, ∀ r' ∈ t.rows, p r = true → p r' = true → r = r') :
    t.update p f hid = none ↔
      ∃ r ∈ t.rows, p r = true ∧ ∃ r' ∈ t.rows, p r' = false ∧ σ.key r' = σ.key (f r) := by
  have hnone : t.update p f hid = none ↔
      ¬ ((t.rows.map fun r => if p r then f r else r).map σ.key).Nodup := by
    unfold update
    dsimp only
    split
    · next h => exact iff_of_false (fun hn => by cases hn) (not_not_intro h)
    · next h => exact iff_of_true rfl h
  rw [hnone, List.map_map, List.nodup_map_iff_inj_on (List.Nodup.of_map _ t.nodup_id)]
  constructor
  · intro h
    by_contra hnot
    have hfree : ∀ r ∈ t.rows, ∀ r' ∈ t.rows, p r = true → p r' = false →
        σ.key r' ≠ σ.key (f r) := fun r hr r' hr' hpr hpr' hkey =>
      hnot ⟨r, hr, hpr, r', hr', hpr', hkey⟩
    refine h fun x hx y hy hkey => ?_
    simp only [Function.comp_apply] at hkey
    cases hpx : p x <;> cases hpy : p y <;> simp only [hpx, hpy, Bool.false_eq_true, if_true,
      if_false] at hkey
    · exact t.eq_of_key hx hy hkey
    · exact absurd hkey (hfree y hy x hx hpy hpx)
    · exact absurd hkey.symm (hfree x hx y hy hpx hpy)
    · exact hp x hx y hy hpx hpy
  · rintro ⟨r, hr, hpr, r', hr', hpr', hkey⟩ hinj
    have heq := hinj r hr r' hr' (by simp [hpr, hpr', hkey])
    rw [heq, hpr'] at hpr
    cases hpr

/-! ## What an upsert changes -/

theorem idOf_of_mem (t : Table σ) {r : R} (hr : r ∈ t.rows) : t.idOf (σ.key r) = σ.id r := by
  unfold idOf
  cases hf : t.rows.find? fun x => σ.key x = σ.key r with
  | none =>
    have := List.find?_eq_none.mp hf r hr
    simp at this
  | some x =>
    have hx := List.mem_of_find?_eq_some hf
    have hk : σ.key x = σ.key r := by simpa using List.find?_some hf
    rw [t.eq_of_key hx hr hk]
    rfl

theorem idOf_of_not_mem (t : Table σ) {k : K} (h : ∀ r ∈ t.rows, σ.key r ≠ k) :
    t.idOf k = t.next := by
  have hf : (t.rows.find? fun r => σ.key r = k) = none := by simpa using h
  rw [idOf, hf]
  rfl

/-- A key that is there has its `idOf`. -/
theorem idOf_of_holds (t : Table σ) {n : Int} {k : K} (h : t.Holds n k) : t.idOf k = n := by
  obtain ⟨r, hr, rfl, rfl⟩ := h
  exact t.idOf_of_mem hr

/-- No other key has the id of a key, present or not. -/
theorem eq_of_holds_idOf (t : Table σ) {k k' : K} (h : t.Holds (t.idOf k) k') : k' = k := by
  rcases t.key_cases k with ⟨r, hr, rfl⟩ | hnone
  · rw [t.idOf_of_mem hr] at h
    obtain ⟨r', hr', hid, rfl⟩ := h
    rw [t.eq_of_id hr' hr hid]
  · rw [t.idOf_of_not_mem hnone] at h
    obtain ⟨r', hr', hid, -⟩ := h
    have := t.id_lt r' hr'
    omega

/-- An upsert adds the pair of the key and its id, and nothing else. -/
theorem holds_upsert (t : Table σ) (e : Entry σ) (n : Int) (k : K) :
    (t.upsert e).Holds n k ↔ t.Holds n k ∨ n = t.idOf e.key ∧ k = e.key := by
  show (∃ r ∈ t.upsertRows e, _) ↔ _
  rcases t.key_cases e.key with ⟨x, hx, hk⟩ | h
  · rw [upsertRows_of_mem t e hx hk, ← hk, t.idOf_of_mem hx]
    simp only [List.mem_map, exists_exists_and_eq_and, id_touched, key_touched]
    constructor
    · exact .inl
    · rintro (h | ⟨rfl, rfl⟩)
      · exact h
      · exact ⟨x, hx, rfl, rfl⟩
  · rw [upsertRows_of_not_mem t e h, t.idOf_of_not_mem h]
    simp only [List.mem_append, List.mem_singleton]
    constructor
    · rintro ⟨r, hr | rfl, rfl, rfl⟩
      · exact .inl ⟨r, hr, rfl, rfl⟩
      · exact .inr ⟨e.id_make _, e.key_make _⟩
    · rintro (⟨r, hr, rfl, rfl⟩ | ⟨rfl, rfl⟩)
      · exact ⟨r, .inl hr, rfl, rfl⟩
      · exact ⟨_, .inr rfl, e.id_make _, e.key_make _⟩

theorem has_upsert (t : Table σ) (e : Entry σ) (k : K) :
    (t.upsert e).Has k ↔ t.Has k ∨ k = e.key := by
  constructor
  · rintro ⟨n, h⟩
    rcases (t.holds_upsert e n k).mp h with h | ⟨-, h⟩
    · exact .inl ⟨n, h⟩
    · exact .inr h
  · rintro (⟨n, h⟩ | rfl)
    · exact ⟨n, (t.holds_upsert e n k).mpr (.inl h)⟩
    · exact ⟨_, (t.holds_upsert e _ _).mpr (.inr ⟨rfl, rfl⟩)⟩

/-- The id of an upserted key stays what it was before. -/
theorem idOf_upsert (t : Table σ) (e : Entry σ) : (t.upsert e).idOf e.key = t.idOf e.key :=
  idOf_of_holds _ ((t.holds_upsert e _ _).mpr (.inr ⟨rfl, rfl⟩))

/-- Rows that a test of the key tells apart from the entry are left alone. -/
theorem mem_upsert (t : Table σ) (e : Entry σ) (q : K → Prop) (hq : ¬ q e.key) (r : R)
    (hr : q (σ.key r)) : r ∈ (t.upsert e).rows ↔ r ∈ t.rows := by
  show r ∈ t.upsertRows e ↔ _
  have hne : ∀ x, touched e x = r → x = r := by
    intro x hx
    unfold touched at hx
    split at hx
    · rename_i hk
      rw [← hx, e.key_touch, hk] at hr
      exact absurd hr hq
    · exact hx
  have hkey : σ.key r ≠ e.key := fun hk => hq (hk ▸ hr)
  rcases t.key_cases e.key with ⟨x, hx, hk⟩ | h
  · rw [upsertRows_of_mem t e hx hk, List.mem_map]
    constructor
    · rintro ⟨y, hy, hyr⟩
      exact hne y hyr ▸ hy
    · exact fun h => ⟨r, h, if_neg hkey⟩
  · rw [upsertRows_of_not_mem t e h, List.mem_append, List.mem_singleton]
    refine or_iff_left fun hmake => hkey ?_
    rw [hmake, e.key_make]

/-- An update changes no row that `p` does not pick, when it makes none of the rows outside `q`. -/
theorem mem_update {t t' : Table σ} {p : R → Bool} {f : R → R}
    {hid : ∀ r, σ.id (f r) = σ.id r} (h : t.update p f hid = some t') (q : R → Prop)
    (hp : ∀ r, p r → ¬ q r) (hf : ∀ r, p r → ¬ q (f r)) (r : R) (hr : q r) :
    r ∈ t'.rows ↔ r ∈ t.rows := by
  rw [update_rows h, List.mem_map]
  constructor
  · rintro ⟨x, hx, hxr⟩
    by_cases hpx : p x
    · rw [if_pos hpx] at hxr
      exact absurd (hxr ▸ hr) (hf x hpx)
    · rw [if_neg hpx] at hxr
      exact hxr ▸ hx
  · intro hmem
    exact ⟨r, hmem, if_neg fun hpr => hp r hpr hr⟩

end Table

end Doodle.Lib
