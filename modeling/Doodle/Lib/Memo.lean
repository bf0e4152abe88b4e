/-
  Memo tables, for an arbitrary request type `Q`, key type `K` and value type `V`.

  A lookup `fetch : Q → Option V` is memoised under a key `key : Q → K`. A call of `q`
  (`ask`) answers from the table when the key of `q` is bound there, and otherwise asks
  `fetch`, keeping what it got. Between calls any part of the table may be dropped
  (`Shrinks`). `Run log σ` says that some sequence of calls and drops from the empty table
  made the calls of `log` (newest first, each with its answer) and left the table `σ`.

  The key need not determine the request. What a memo table then preserves is exactly
  `NoClash`: of two calls with the same key, when the older one was answered by `fetch`, so
  is the newer one.

  A `MemoServer` is a step system that serves its calls through such a table.

  * `trace_faithful`: on calls without a clash every run succeeds exactly where `fetch`
    answers, whatever is dropped (`Run.faithful`, for the table alone).
  * `clashFree_of_trace`: if a run that drops nothing succeeds exactly there, its calls have no
    clash.
-/
import Mathlib.Tactic.Common

namespace Doodle.Lib

universe u v w

variable {Q : Type u} {K : Type v} {V : Type w}

/-- A memo table: the value kept under each key. -/
def Memo (K : Type v) (V : Type w) : Type (max v w) := K → Option V

/-- The table that keeps nothing. -/
def Memo.empty : Memo K V := fun _ => none

/-- `σ'` is `σ` with some keys dropped. -/
def Shrinks (σ' σ : Memo K V) : Prop := ∀ k, σ' k = σ k ∨ σ' k = none

theorem Shrinks.refl (σ : Memo K V) : Shrinks σ σ := fun _ => Or.inl rfl

section Ask

variable [DecidableEq K] (key : Q → K) (fetch : Q → Option V)

/-- `σ` with `k` bound to `v`. -/
def Memo.set (σ : Memo K V) (k : K) (v : V) : Memo K V := fun k' => if k' = k then some v else σ k'

/-- One memoised call: the answer and the table after it. -/
def ask (σ : Memo K V) (q : Q) : Option V × Memo K V :=
  match σ (key q) with
  | some v => (some v, σ)
  | none =>
    match fetch q with
    | some v => (some v, σ.set (key q) v)
    | none => (none, σ)

theorem ask_hit {σ : Memo K V} {q : Q} {v : V} (h : σ (key q) = some v) :
    ask key fetch σ q = (some v, σ) := by
  simp only [ask, h]

theorem ask_miss {σ : Memo K V} {q : Q} {v : V} (h : σ (key q) = none) (hf : fetch q = some v) :
    ask key fetch σ q = (some v, σ.set (key q) v) := by
  simp only [ask, h, hf]

theorem ask_none {σ : Memo K V} {q : Q} (h : σ (key q) = none) (hf : fetch q = none) :
    ask key fetch σ q = (none, σ) := by
  simp only [ask, h, hf]

/-- A call answers `some` exactly when its key is bound or `fetch` does. -/
theorem ask_isSome (σ : Memo K V) (q : Q) :
    (ask key fetch σ q).1.isSome ↔ (σ (key q)).isSome ∨ (fetch q).isSome := by
  cases h : σ (key q) with
  | some v => simp [ask_hit key fetch h]
  | none =>
    cases hf : fetch q with
    | some v => simp [ask_miss key fetch h hf]
    | none => simp [ask_none key fetch h hf]

/-- What is bound after a call: what was bound before, and the key of the call when `fetch`
    answered it. -/
theorem ask_table (σ : Memo K V) (q : Q) (k : K) :
    ((ask key fetch σ q).2 k).isSome ↔ (σ k).isSome ∨ (key q = k ∧ (fetch q).isSome) := by
  cases h : σ (key q) with
  | some v =>
    rw [ask_hit key fetch h]
    constructor
    · intro hk; exact Or.inl hk
    · rintro (hk | ⟨rfl, _⟩)
      · exact hk
      · simp [h]
  | none =>
    cases hf : fetch q with
    | none => simp [ask_none key fetch h hf]
    | some v =>
      rw [ask_miss key fetch h hf]
      by_cases hk : k = key q
      · subst hk; simp [Memo.set]
      · simp [Memo.set, hk, Ne.symm hk]

/-! ## Runs -/

/-- Calls made (newest first, with their answers) and the table they left, from the empty
    table, with any part of the table dropped at any time. -/
inductive Run : List (Q × Option V) → Memo K V → Prop
  | start : Run [] Memo.empty
  | evict {log σ σ'} : Run log σ → Shrinks σ' σ → Run log σ'
  | call {log σ} (q : Q) : Run log σ → Run ((q, (ask key fetch σ q).1) :: log) (ask key fetch σ q).2

variable {key fetch}

/-- Whatever a table keeps was fetched by a call of the run, under its own key. -/
theorem Run.origin {log : List (Q × Option V)} {σ : Memo K V} (h : Run key fetch log σ) :
    ∀ k v, σ k = some v → ∃ q ∈ log.map Prod.fst, key q = k ∧ fetch q = some v := by
  induction h with
  | start => intro k v hk; cases hk
  | evict _ hs ih =>
    intro k v hk
    rcases hs k with h | h
    · exact ih k v (h ▸ hk)
    · rw [h] at hk; cases hk
  | @call log σ q _ ih =>
    intro k v hk
    have lift : (∃ q' ∈ log.map Prod.fst, key q' = k ∧ fetch q' = some v) →
        ∃ q' ∈ ((q, (ask key fetch σ q).1) :: log).map Prod.fst, key q' = k ∧ fetch q' = some v :=
      fun ⟨q', hm, e⟩ => ⟨q', List.mem_cons_of_mem _ hm, e⟩
    cases hσ : σ (key q) with
    | some u =>
      rw [ask_hit key fetch hσ] at hk
      exact lift (ih k v hk)
    | none =>
      cases hf : fetch q with
      | none =>
        rw [ask_none key fetch hσ hf] at hk
        exact lift (ih k v hk)
      | some u =>
        rw [ask_miss key fetch hσ hf] at hk
        by_cases hkq : k = key q
        · subst hkq
          simp only [Memo.set, if_true, Option.some.injEq] at hk
          exact ⟨q, List.mem_cons_self, rfl, hk ▸ hf⟩
        · simp only [Memo.set, if_neg hkq] at hk
          exact lift (ih k v hk)

variable (key fetch)

/-- Of two calls with one key (newest first), when `fetch` answers the older it answers the
    newer. -/
def NoClash (qs : List Q) : Prop :=
  qs.Pairwise fun new old => (fetch old).isSome → key old = key new → (fetch new).isSome

/-- Every call of the log was answered exactly when `fetch` answers it. -/
def Faithful (log : List (Q × Option V)) : Prop :=
  ∀ e ∈ log, e.2.isSome ↔ (fetch e.1).isSome

variable {key fetch}

/-- Without a clash, no drop and no earlier call changes whether a call is answered. -/
theorem Run.faithful {log : List (Q × Option V)} {σ : Memo K V} (h : Run key fetch log σ)
    (hc : NoClash key fetch (log.map Prod.fst)) : Faithful fetch log := by
  induction h with
  | start => intro e he; cases he
  | evict _ _ ih => exact ih hc
  | @call log σ q hr ih =>
    simp only [NoClash, List.map_cons, List.pairwise_cons] at hc
    intro e he
    rcases List.mem_cons.mp he with rfl | he
    · simp only [ask_isSome]
      constructor
      · rintro (hσ | hf)
        · obtain ⟨v, hv⟩ := Option.isSome_iff_exists.mp hσ
          obtain ⟨q', hq', hk, hf'⟩ := hr.origin _ _ hv
          exact hc.1 q' hq' (by rw [hf']; rfl) hk
        · exact hf
      · exact Or.inr
    · exact ih hc.2 e he

/-! ## The run that drops nothing -/

variable (key fetch)

/-- The table after the calls `qs` (newest first), made one after another with nothing
    dropped. -/
def replay : List Q → Memo K V
  | [] => Memo.empty
  | q :: qs => (ask key fetch (replay qs) q).2

theorem replay_table (qs : List Q) (k : K) :
    ((replay key fetch qs) k).isSome ↔ ∃ q ∈ qs, key q = k ∧ (fetch q).isSome := by
  induction qs with
  | nil => simp [replay, Memo.empty]
  | cons q qs ih =>
    simp only [replay, ask_table, ih, List.mem_cons, exists_eq_or_imp]
    exact or_comm

/-! ## Systems that serve calls through a memo table -/

/-- A step system with a memo table inside. A step may serve one call and report whether it
    succeeded; before the call, and in a step that serves none, bindings may be dropped. -/
structure MemoServer (S : Type*) (Op : Type*) where
  table : S → Memo K V
  inv : S → Prop
  step : S → Op → S × Option (Q × Bool)
  step_inv : ∀ s o, inv s → inv (step s o).1
  step_quiet : ∀ s o, inv s → (step s o).2 = none → Shrinks (table (step s o).1) (table s)
  step_call : ∀ s o q b, inv s → (step s o).2 = some (q, b) → ∃ σ, Shrinks σ (table s) ∧
    b = (ask key fetch σ q).1.isSome ∧ table (step s o).1 = (ask key fetch σ q).2

variable {key fetch} {S Op : Type*}

/-- The calls served from `s` on, oldest first, each with its success. -/
def MemoServer.trace (M : MemoServer key fetch S Op) : S → List Op → List (Q × Bool)
  | _, [] => []
  | s, o :: os => (M.step s o).2.toList ++ M.trace (M.step s o).1 os

/-- The clash condition on calls in the order they were made. -/
def ClashFree (key : Q → K) (fetch : Q → Option V) (qs : List Q) : Prop :=
  qs.Pairwise fun old new => (fetch old).isSome → key old = key new → (fetch new).isSome

omit [DecidableEq K] in
theorem noClash_reverse (qs : List Q) : NoClash key fetch qs.reverse ↔ ClashFree key fetch qs :=
  List.pairwise_reverse

private theorem trace_faithful_from (M : MemoServer key fetch S Op) (os : List Op) :
    ∀ (s : S) (log : List (Q × Option V)), M.inv s → Run key fetch log (M.table s) →
      NoClash key fetch (((M.trace s os).map Prod.fst).reverse ++ log.map Prod.fst) →
      ∀ e ∈ M.trace s os, e.2 = (fetch e.1).isSome := by
  induction os with
  | nil => intro s log _ _ _ e he; cases he
  | cons o os ih =>
    intro s log hi hr hc e he
    have hi' := M.step_inv s o hi
    cases hcall : (M.step s o).2 with
    | none =>
      simp only [MemoServer.trace, hcall, Option.toList_none, List.nil_append] at hc he
      exact ih _ log hi' (hr.evict (M.step_quiet s o hi hcall)) hc e he
    | some qb =>
      obtain ⟨q, b⟩ := qb
      obtain ⟨σ, hσ, hb, ht⟩ := M.step_call s o q b hi hcall
      simp only [MemoServer.trace, hcall, Option.toList_some, List.singleton_append, List.map_cons,
        List.reverse_cons, List.append_assoc, List.mem_cons] at hc he
      have hr' : Run key fetch ((q, (ask key fetch σ q).1) :: log) (M.table (M.step s o).1) :=
        ht ▸ (hr.evict hσ).call q
      rcases he with rfl | he
      · have hlog := hr'.faithful (List.Pairwise.sublist (List.sublist_append_right _ _) hc)
        have hq := hlog _ List.mem_cons_self
        rw [hb]
        exact Bool.eq_iff_iff.mpr hq
      · exact ih _ _ hi' hr' hc e he

/-- From an empty table, calls without a clash succeed exactly when `fetch` answers them. -/
theorem MemoServer.trace_faithful (M : MemoServer key fetch S Op) (s : S) (os : List Op)
    (hi : M.inv s) (h0 : M.table s = Memo.empty)
    (hc : ClashFree key fetch ((M.trace s os).map Prod.fst)) :
    ∀ e ∈ M.trace s os, e.2 = (fetch e.1).isSome := by
  refine trace_faithful_from M os s [] hi (h0 ▸ Run.start) ?_
  rw [List.map_nil, List.append_nil, noClash_reverse]
  exact hc

/-- The step drops no binding. -/
def MemoServer.Lossless (M : MemoServer key fetch S Op) (s : S) (o : Op) : Prop :=
  match (M.step s o).2 with
  | none => M.table (M.step s o).1 = M.table s
  | some (q, b) => b = (ask key fetch (M.table s) q).1.isSome ∧
      M.table (M.step s o).1 = (ask key fetch (M.table s) q).2

private theorem noClash_of_trace_from (M : MemoServer key fetch S Op) (I : S → Prop)
    (os : List Op) (hI : ∀ s, I s → ∀ o ∈ os, I (M.step s o).1 ∧ M.Lossless s o) :
    ∀ (s : S) (qs : List Q), I s → M.table s = replay key fetch qs →
      NoClash key fetch qs → (∀ e ∈ M.trace s os, e.2 = (fetch e.1).isSome) →
      NoClash key fetch (((M.trace s os).map Prod.fst).reverse ++ qs) := by
  induction os with
  | nil => intro s qs _ _ hc _; exact hc
  | cons o os ih =>
    intro s qs hs ht hc hf
    obtain ⟨hs', hl⟩ := hI s hs o List.mem_cons_self
    have hI' : ∀ s, I s → ∀ o ∈ os, I (M.step s o).1 ∧ M.Lossless s o :=
      fun s hs o ho => hI s hs o (List.mem_cons_of_mem _ ho)
    unfold MemoServer.Lossless at hl
    cases hcall : (M.step s o).2 with
    | none =>
      simp only [hcall] at hl
      simp only [MemoServer.trace, hcall, Option.toList_none, List.nil_append] at hf ⊢
      exact ih hI' _ qs hs' (hl.trans ht) hc hf
    | some qb =>
      obtain ⟨q, b⟩ := qb
      simp only [hcall] at hl
      simp only [MemoServer.trace, hcall, Option.toList_some, List.singleton_append, List.map_cons,
        List.reverse_cons, List.append_assoc, List.mem_cons, forall_eq_or_imp] at hf ⊢
      refine ih hI' _ (q :: qs) hs' ?_ ?_ hf.2
      · rw [hl.2, ht]; rfl
      · refine List.pairwise_cons.mpr ⟨?_, hc⟩
        intro old hold hfo hk
        -- The older call left its key bound, so the newer one succeeded; being faithful, it
        -- was one `fetch` answers.
        have hb : b = true := by
          rw [hl.1, ht]
          exact (ask_isSome key fetch _ q).mpr
            (Or.inl ((replay_table key fetch qs _).mpr ⟨old, hold, hk, hfo⟩))
        rw [← hf.1, hb]

/-- If nothing is dropped along a run from an empty table and every call succeeds exactly when
    `fetch` answers it, the calls have no clash. `I` is any invariant under which the steps
    drop nothing. -/
theorem MemoServer.clashFree_of_trace (M : MemoServer key fetch S Op) (I : S → Prop) (s : S)
    (os : List Op) (hI : ∀ s, I s → ∀ o ∈ os, I (M.step s o).1 ∧ M.Lossless s o) (hs : I s)
    (h0 : M.table s = Memo.empty) (hf : ∀ e ∈ M.trace s os, e.2 = (fetch e.1).isSome) :
    ClashFree key fetch ((M.trace s os).map Prod.fst) := by
  have := noClash_of_trace_from M I os hI s [] hs h0 List.Pairwise.nil hf
  rwa [List.append_nil, noClash_reverse] at this

end Ask

end Doodle.Lib
