/-
  Copying a keyed store from one list of it and a watch on it, for arbitrary keys, values and
  copies.

  The store is the log of its changes. The watch delivers the changes after the one at which it
  was created, in order; `watch` is how many changes of the log it is past. The list is taken once;
  `snap` is the length of the log at that moment and the entries not yet added. Changes, watch,
  deliveries, list and additions interleave in any way.

  `Careful` says of a step, from the state before it, that it does no harm: when the watch is
  created, the keys bound are those of the list; when an entry is added, the watch is not past a
  deletion of it.

  * `inv_step`, `inv_run`: careful steps keep `Inv`.
  * `has_iff_of_settled`: under `Inv`, once all is delivered and added, the copy has exactly the
    keys of the store.
-/
import Doodle.Lib.EventLog

namespace Doodle.Lib.ListWatch

universe u v w

variable {K : Type u} {V : Type v} {A : Type w}

/-- A copy: the keys it has, and how a change and a listed entry are put into it. -/
structure Copy (K : Type u) (V : Type v) (A : Type w) where
  has : A → K → Prop
  apply : A → Change K V → A
  add : A → K → V → A
  empty : A
  Ok : A → Prop
  ok_empty : Ok empty
  ok_apply : ∀ a e, Ok a → Ok (apply a e)
  ok_add : ∀ a k v, Ok a → Ok (add a k v)
  has_empty : ∀ k, ¬ has empty k
  has_apply : ∀ a e k, Ok a →
    (has (apply a e) k ↔ (e.key = k ∧ e.img.isSome) ∨ (e.key ≠ k ∧ has a k))
  has_add : ∀ a k v j, Ok a → (has (add a k v) j ↔ has a j ∨ k = j)

structure State (K : Type u) (V : Type v) (A : Type w) where
  log : List (Change K V)
  watch : Option Nat
  snap : Option (Nat × List (K × V))
  copy : A

inductive Action (K : Type u) (V : Type v) where
  | change (e : Change K V)
  | watch
  | deliver
  | list (entries : List (K × V))
  | add

/-- Neither list nor watch yet, after the changes of `log`. -/
def Copy.init (c : Copy K V A) (log : List (Change K V)) : State K V A :=
  ⟨log, none, none, c.empty⟩

variable [DecidableEq K]

/-- `entries` are the keys and values of the store, in some order. -/
def Lists (log : List (Change K V)) (entries : List (K × V)) : Prop :=
  (∀ p ∈ entries, valueAfter log p.1 = some p.2) ∧
    ∀ e ∈ log, ∀ v ∈ valueAfter log e.key, (e.key, v) ∈ entries

instance [DecidableEq V] (log : List (Change K V)) (entries : List (K × V)) :
    Decidable (Lists log entries) :=
  inferInstanceAs (Decidable (_ ∧ _))

/-- One step; `none` when the action is not possible. -/
def step [DecidableEq V] (c : Copy K V A) (s : State K V A) :
    Action K V → Option (State K V A)
  | .change e => some { s with log := s.log ++ [e] }
  | .watch =>
    match s.watch with
    | none => some { s with watch := some s.log.length }
    | some _ => none
  | .deliver =>
    match s.watch with
    | none => none
    | some d =>
      match s.log[d]? with
      | none => none
      | some e => some { s with watch := some (d + 1), copy := c.apply s.copy e }
  | .list entries =>
    match s.snap with
    | some _ => none
    | none =>
      if Lists s.log entries then some { s with snap := some (s.log.length, entries) } else none
  | .add =>
    match s.snap with
    | some (n, (k, v) :: left) => some { s with snap := some (n, left), copy := c.add s.copy k v }
    | _ => none

/-- The state after the actions of a run, when all are possible. -/
def run [DecidableEq V] (c : Copy K V A) (s : State K V A) :
    List (Action K V) → Option (State K V A)
  | [] => some s
  | a :: as => (step c s a).bind fun s' => run c s' as

/-- Every entry of the list is added and every change delivered. -/
def Settled (s : State K V A) : Prop :=
  s.watch = some s.log.length ∧ ∃ n, s.snap = some (n, [])

/-- The step loses nothing and brings nothing back. -/
def Careful (s : State K V A) : Action K V → Prop
  | .watch => ∀ n left, s.snap = some (n, left) → ∀ k, Bound (s.log.take n) k ↔ Bound s.log k
  | .add => ∀ d n k v left, s.watch = some d → s.snap = some (n, (k, v) :: left) →
      d ≤ n ∨ Bound (s.log.take d) k
  | _ => True

/-- Every step of the run is careful. -/
def CarefulRun [DecidableEq V] (c : Copy K V A) (s : State K V A) : List (Action K V) → Prop
  | [] => True
  | a :: as => Careful s a ∧ ∀ s', step c s a = some s' → CarefulRun c s' as

/-! ## Where the copy stands -/

/-- The keys `has` of a copy that took the changes `seen` from the watch, while those of the list
    are after `window` as well and the entries `left` are still to be added. With the watch past
    the list, `window` is empty. -/
def Stands (has : K → Prop) (seen window : List (Change K V)) (left : List (K × V)) : Prop :=
  (∀ k, has k → Bound seen k ∨ Bound (seen ++ window) k) ∧
    ∀ k, Bound (seen ++ window) k → has k ∨ (∃ v, (k, v) ∈ left) ∨ ∃ e ∈ window, e.key = k

/-- A delivery inside the window: a key deleted there and bound at its end is put later on. -/
theorem stands_window {has has' : K → Prop} {seen window : List (Change K V)}
    {e : Change K V} {left : List (K × V)}
    (hhas : ∀ k, has' k ↔ (e.key = k ∧ e.img.isSome) ∨ (e.key ≠ k ∧ has k))
    (h : Stands has seen (e :: window) left) : Stands has' (seen ++ [e]) window left := by
  obtain ⟨hsound, hcomplete⟩ := h
  have happ : seen ++ [e] ++ window = seen ++ e :: window := by simp
  refine ⟨fun k hk => ?_, fun k hk => ?_⟩
  · rw [happ, bound_concat]
    rcases (hhas k).mp hk with hput | ⟨hne, hold⟩
    · exact Or.inl (Or.inl hput)
    · rcases hsound k hold with hseen | hend
      · exact Or.inl (Or.inr ⟨hne, hseen⟩)
      · exact Or.inr hend
  · rw [happ] at hk
    by_cases hwin : ∃ e' ∈ window, e'.key = k
    · exact Or.inr (Or.inr hwin)
    -- nothing of `k` after `e`, so `e` decides for `k` if it is its change
    have hquiet : ∀ e' ∈ window, e'.key ≠ k := fun e' he' hkey => hwin ⟨e', he', hkey⟩
    have hbound : Bound (seen ++ [e]) k := by
      unfold Bound at hk ⊢
      rwa [← valueAfter_append_of_forall_ne hquiet, happ]
    rcases (bound_concat seen e k).mp hbound with hput | ⟨hne, -⟩
    · exact Or.inl ((hhas k).mpr (Or.inl hput))
    · rcases hcomplete k hk with hold | hleft | ⟨e', he', hkey⟩
      · exact Or.inl ((hhas k).mpr (Or.inr ⟨hne, hold⟩))
      · exact Or.inr (Or.inl hleft)
      · rcases List.mem_cons.mp he' with rfl | he'
        · exact absurd hkey hne
        · exact absurd hkey (hquiet e' he')

/-- A delivery past the list. -/
theorem stands_past {has has' : K → Prop} {seen : List (Change K V)} {e : Change K V}
    {left : List (K × V)}
    (hhas : ∀ k, has' k ↔ (e.key = k ∧ e.img.isSome) ∨ (e.key ≠ k ∧ has k))
    (h : Stands has seen [] left) : Stands has' (seen ++ [e]) [] left := by
  obtain ⟨hsound, hcomplete⟩ := h
  simp only [List.append_nil, or_self] at hsound hcomplete
  refine ⟨fun k hk => ?_, fun k hk => ?_⟩
  · refine Or.inl ((bound_concat seen e k).mpr ?_)
    exact ((hhas k).mp hk).imp_right fun hold => ⟨hold.1, hsound k hold.2⟩
  · rw [List.append_nil] at hk
    rcases (bound_concat seen e k).mp hk with hput | ⟨hne, hold⟩
    · exact Or.inl ((hhas k).mpr (Or.inl hput))
    · exact (hcomplete k hold).imp_left fun hin => (hhas k).mpr (Or.inr ⟨hne, hin⟩)

/-- An addition of an entry that is bound where the watch is or where the list was taken. -/
theorem stands_add {has has' : K → Prop} {seen window : List (Change K V)} {k : K} {v : V}
    {left : List (K × V)} (hhas : ∀ j, has' j ↔ has j ∨ k = j)
    (hk : Bound seen k ∨ Bound (seen ++ window) k)
    (h : Stands has seen window ((k, v) :: left)) : Stands has' seen window left := by
  obtain ⟨hsound, hcomplete⟩ := h
  refine ⟨fun j hj => ?_, fun j hj => ?_⟩
  · rcases (hhas j).mp hj with hold | rfl
    · exact hsound j hold
    · exact hk
  · rcases hcomplete j hj with hold | ⟨v', hmem⟩ | hwin
    · exact Or.inl ((hhas j).mpr (Or.inl hold))
    · rcases List.mem_cons.mp hmem with heq | hmem
      · exact Or.inl ((hhas j).mpr (Or.inr (Prod.mk.inj heq).1.symm))
      · exact Or.inr (Or.inl ⟨v', hmem⟩)
    · exact Or.inr (Or.inr hwin)

theorem stands_congr {has : K → Prop} {seen seen' : List (Change K V)} {left : List (K × V)}
    (hsame : ∀ k, Bound seen k ↔ Bound seen' k) (h : Stands has seen [] left) :
    Stands has seen' [] left := by
  simpa only [Stands, List.append_nil, hsame] using h

/-! ## The invariant -/

theorem take_drop_length {α : Type u} (l : List α) (n : Nat) :
    (l.take n).drop l.length = [] :=
  List.drop_eq_nil_of_le (by rw [List.length_take]; omega)

/-- The keys of the copy, by which of watch and list there are yet. -/
def Follows (has : K → Prop) (log : List (Change K V)) :
    Option Nat → Option (Nat × List (K × V)) → Prop
  | none, none => ∀ k, ¬ has k
  | none, some (n, left) => Stands has (log.take n) [] left
  | some d, none => ∀ k, has k → Bound (log.take d) k
  | some d, some (n, left) => Stands has (log.take d) ((log.take n).drop d) left

structure Inv (c : Copy K V A) (s : State K V A) : Prop where
  ok : c.Ok s.copy
  watched : ∀ d, s.watch = some d → d ≤ s.log.length
  listed : ∀ n left, s.snap = some (n, left) →
    n ≤ s.log.length ∧ ∀ p ∈ left, Bound (s.log.take n) p.1
  follows : Follows (c.has s.copy) s.log s.watch s.snap

theorem inv_init (c : Copy K V A) (log : List (Change K V)) : Inv c (c.init log) where
  ok := c.ok_empty
  watched _ h := nomatch h
  listed _ _ h := nomatch h
  follows := c.has_empty

/-- A change in the store touches neither the watch nor the list. -/
theorem inv_change {c : Copy K V A} {s : State K V A} (h : Inv c s) (e : Change K V) :
    Inv c { s with log := s.log ++ [e] } := by
  obtain ⟨log, watch, snap, a⟩ := s
  obtain ⟨hok, hwatched, hlisted, hfollows⟩ := h
  have htake : ∀ m, m ≤ log.length → (log ++ [e]).take m = log.take m := fun m hm =>
    List.take_append_of_le_length hm
  refine ⟨hok, fun d hd => ?_, fun n left hn => ?_, ?_⟩
  · exact Nat.le_trans (hwatched d hd) (by simp)
  · obtain ⟨hle, hleft⟩ := hlisted n left hn
    refine ⟨Nat.le_trans hle (by simp), ?_⟩
    rwa [htake n hle]
  · rcases watch with _ | d <;> rcases snap with _ | ⟨n, left⟩
    · exact hfollows
    · simpa only [Follows, htake n (hlisted n left rfl).1] using hfollows
    · simpa only [Follows, htake d (hwatched d rfl)] using hfollows
    · simpa only [Follows, htake n (hlisted n left rfl).1, htake d (hwatched d rfl)]
        using hfollows

/-- The watch is created with the keys bound that the list has. -/
theorem inv_watch {c : Copy K V A} {s : State K V A} (h : Inv c s) (hnone : s.watch = none)
    (hcare : Careful s .watch) : Inv c { s with watch := some s.log.length } := by
  obtain ⟨log, watch, snap, a⟩ := s
  obtain ⟨hok, -, hlisted, hfollows⟩ := h
  obtain rfl : watch = none := hnone
  refine ⟨hok, fun d hd => ?_, hlisted, ?_⟩
  · obtain rfl := Option.some.inj hd
    exact Nat.le_refl _
  · rcases snap with _ | ⟨n, left⟩
    · exact fun k hk => absurd hk (hfollows k)
    · simp only [Follows, List.take_length, take_drop_length]
      exact stands_congr (hcare n left rfl) hfollows

theorem inv_deliver {c : Copy K V A} {s : State K V A} (h : Inv c s) {d : Nat} {e : Change K V}
    (hd : s.watch = some d) (he : s.log[d]? = some e) :
    Inv c { s with watch := some (d + 1), copy := c.apply s.copy e } := by
  obtain ⟨log, watch, snap, a⟩ := s
  obtain ⟨hok, -, hlisted, hfollows⟩ := h
  obtain rfl : watch = some d := hd
  obtain ⟨hlt, hget⟩ : ∃ hlt : d < log.length, log[d] = e := List.getElem?_eq_some_iff.mp he
  have hseen : log.take (d + 1) = log.take d ++ [e] := by
    rw [List.take_add_one, he]
    rfl
  have hhas : ∀ k, c.has (c.apply a e) k ↔
      (e.key = k ∧ e.img.isSome) ∨ (e.key ≠ k ∧ c.has a k) := fun k => c.has_apply a e k hok
  refine ⟨c.ok_apply a e hok, fun d' hd' => ?_, hlisted, ?_⟩
  · obtain rfl := Option.some.inj hd'
    exact hlt
  · rcases snap with _ | ⟨n, left⟩
    · intro k hk
      rw [hseen, bound_concat]
      exact ((hhas k).mp hk).imp_right fun hold => ⟨hold.1, hfollows k hold.2⟩
    · simp only [Follows, hseen] at hfollows ⊢
      -- the event is the first of the window, or the watch is past the list
      rcases Nat.lt_or_ge d n with hdn | hnd
      · have hwin : (log.take n).drop d = e :: (log.take n).drop (d + 1) := by
          rw [List.drop_eq_getElem_cons (by simp only [List.length_take]; omega),
            List.getElem_take, hget]
        rw [hwin] at hfollows
        exact stands_window hhas hfollows
      · have hnil : ∀ m, n ≤ m → (log.take n).drop m = [] := fun m hm =>
          List.drop_eq_nil_of_le (by simp only [List.length_take]; omega)
        rw [hnil d hnd] at hfollows
        rw [hnil (d + 1) (by omega)]
        exact stands_past hhas hfollows

theorem mem_of_lists {log : List (Change K V)} {entries : List (K × V)} (h : Lists log entries)
    {k : K} (hk : Bound log k) : ∃ v, (k, v) ∈ entries := by
  obtain ⟨e, he, rfl⟩ := exists_of_bound hk
  obtain ⟨v, hv⟩ := Option.isSome_iff_exists.mp hk
  exact ⟨v, h.2 e he v hv⟩

theorem inv_list {c : Copy K V A} {s : State K V A} (h : Inv c s) (hnone : s.snap = none)
    {entries : List (K × V)} (hlists : Lists s.log entries) :
    Inv c { s with snap := some (s.log.length, entries) } := by
  obtain ⟨log, watch, snap, a⟩ := s
  obtain ⟨hok, hwatched, -, hfollows⟩ := h
  obtain rfl : snap = none := hnone
  refine ⟨hok, hwatched, fun n left hn => ?_, ?_⟩
  · obtain ⟨rfl, rfl⟩ := Prod.mk.inj (Option.some.inj hn)
    refine ⟨Nat.le_refl _, fun p hp => ?_⟩
    have hval := hlists.1 p hp
    simp only at hval
    rw [List.take_length, Bound, hval]
    rfl
  · rcases watch with _ | d
    · simp only [Follows, List.take_length]
      exact ⟨fun k hk => absurd hk (hfollows k), fun k hk =>
        Or.inr (Or.inl (mem_of_lists hlists (by rwa [List.append_nil] at hk)))⟩
    · simp only [Follows, List.take_length]
      refine ⟨fun k hk => Or.inl (hfollows k hk), fun k hk => Or.inr (Or.inl ?_)⟩
      rw [List.take_append_drop] at hk
      exact mem_of_lists hlists hk

theorem inv_add {c : Copy K V A} {s : State K V A} (h : Inv c s) {n : Nat} {k : K} {v : V}
    {left : List (K × V)} (hsnap : s.snap = some (n, (k, v) :: left))
    (hcare : Careful s .add) :
    Inv c { s with snap := some (n, left), copy := c.add s.copy k v } := by
  obtain ⟨log, watch, snap, a⟩ := s
  obtain ⟨hok, hwatched, hlisted, hfollows⟩ := h
  obtain rfl : snap = some (n, (k, v) :: left) := hsnap
  obtain ⟨hle, hleft⟩ := hlisted n _ rfl
  have hk : Bound (log.take n) k := hleft (k, v) List.mem_cons_self
  have hhas : ∀ j, c.has (c.add a k v) j ↔ c.has a j ∨ k = j := fun j => c.has_add a k v j hok
  refine ⟨c.ok_add a k v hok, hwatched, fun n' left' hn' => ?_, ?_⟩
  · obtain ⟨rfl, rfl⟩ := Prod.mk.inj (Option.some.inj hn')
    exact ⟨hle, fun p hp => hleft p (List.mem_cons_of_mem _ hp)⟩
  · rcases watch with _ | d
    · exact stands_add hhas (Or.inl hk) hfollows
    · refine stands_add hhas ?_ hfollows
      rcases hcare d n k v left rfl rfl with hdn | hbound
      · have htake : log.take d ++ (log.take n).drop d = log.take n := by
          conv_rhs => rw [← List.take_append_drop d (log.take n), List.take_take,
            Nat.min_eq_left hdn]
        refine Or.inr ?_
        rwa [htake]
      · exact Or.inl hbound

/-- A careful step keeps the invariant. -/
theorem inv_step [DecidableEq V] {c : Copy K V A} {s s' : State K V A} {a : Action K V}
    (h : Inv c s) (hcare : Careful s a) (hstep : step c s a = some s') : Inv c s' := by
  unfold step at hstep
  split at hstep
  · exact Option.some.inj hstep ▸ inv_change h _
  · split at hstep
    · exact Option.some.inj hstep ▸ inv_watch h (by assumption) hcare
    · exact nomatch hstep
  · split at hstep
    · exact nomatch hstep
    · split at hstep
      · exact nomatch hstep
      · exact Option.some.inj hstep ▸ inv_deliver h (by assumption) (by assumption)
  · split at hstep
    · exact nomatch hstep
    · split at hstep
      · exact Option.some.inj hstep ▸ inv_list h (by assumption) (by assumption)
      · exact nomatch hstep
  · split at hstep
    · exact Option.some.inj hstep ▸ inv_add h (by assumption) hcare
    · exact nomatch hstep

/-- A careful run keeps the invariant. -/
theorem inv_run [DecidableEq V] {c : Copy K V A} {s s' : State K V A}
    {as : List (Action K V)} (h : Inv c s) (hcare : CarefulRun c s as)
    (hrun : run c s as = some s') : Inv c s' := by
  induction as generalizing s with
  | nil => exact Option.some.inj hrun ▸ h
  | cons a as ih =>
    obtain ⟨s₁, hstep, hrest⟩ := Option.bind_eq_some_iff.mp hrun
    exact ih (inv_step h hcare.1 hstep) (hcare.2 s₁ hstep) hrest

/-- Once all is delivered and added, the copy has exactly the keys of the store. -/
theorem has_iff_of_settled {c : Copy K V A} {s : State K V A} (h : Inv c s) (hs : Settled s)
    (k : K) : c.has s.copy k ↔ Bound s.log k := by
  obtain ⟨log, watch, snap, a⟩ := s
  obtain ⟨hwatch, n, hsnap⟩ := hs
  obtain rfl : watch = some log.length := hwatch
  obtain rfl : snap = some (n, []) := hsnap
  have hstands : Stands (c.has a) log [] [] := by
    have hfollows := h.follows
    simpa only [Follows, List.take_length, take_drop_length] using hfollows
  simp only [Stands, List.append_nil, or_self, List.not_mem_nil, false_and, exists_false,
    or_false] at hstands
  exact ⟨hstands.1 k, hstands.2 k⟩

end Doodle.Lib.ListWatch
