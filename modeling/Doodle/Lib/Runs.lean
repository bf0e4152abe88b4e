/-
  Runs of a system that takes one step for each request.

  A condition on a request may depend on the state the request meets. `EachStep` is a run in
  which every request meets its condition in the state before it, and `inv_of_eachStep` is the rule
  of invariants for such runs: what such a step keeps holds in every state of the run.
  `eachStep_iff`: a condition that is exact for one step is exact for the run.
-/
import Mathlib.Tactic.Common

namespace Doodle.Lib

variable {S A : Type} (step : S → A → S) (ok : S → A → Prop)

/-- Every request meets its condition in the state before it. -/
def EachStep : S → List A → Prop
  | _, [] => True
  | s, a :: as => ok s a ∧ EachStep (step s a) as

variable {step ok}

theorem inv_of_eachStep {I : S → Prop} (hstep : ∀ s a, I s → ok s a → I (step s a)) (as : List A) :
    ∀ s, I s → EachStep step ok s as → ∀ n, I ((as.take n).foldl step s) := by
  induction as with
  | nil =>
    intro s hs _ n
    rw [List.take_nil]
    exact hs
  | cons a as ih =>
    rintro s hs ⟨hok, hrun⟩ n
    cases n with
    | zero => exact hs
    | succ n => exact ih (step s a) (hstep s a hs hok) hrun n

/-- When the condition is what it takes to come out well, the runs in which every request meets it
    are those whose states all come out well. -/
theorem eachStep_iff {I : S → Prop} (hstep : ∀ s a, I (step s a) ↔ ok s a) (as : List A) :
    ∀ s, (∀ n, 0 < n → n ≤ as.length → I ((as.take n).foldl step s)) ↔ EachStep step ok s as := by
  induction as with
  | nil =>
    intro s
    refine iff_of_true (fun n hpos hle => ?_) trivial
    exact absurd hpos (by simpa using hle)
  | cons a as ih =>
    intro s
    rw [EachStep, ← hstep, ← ih]
    constructor
    · intro h
      refine ⟨h 1 Nat.one_pos (by simp), fun n _ hle => ?_⟩
      exact h (n + 1) n.succ_pos (by simpa using hle)
    · rintro ⟨ha, has⟩ n hpos hle
      obtain ⟨m, rfl⟩ := Nat.exists_eq_add_of_lt hpos
      rw [Nat.zero_add] at hle ⊢
      rw [List.take_succ_cons, List.foldl_cons]
      cases m with
      | zero => exact ha
      | succ m => exact has (m + 1) m.succ_pos (by simpa using hle)

/-! ## Steps that are relations -/

/-- The requests, one after another, may lead from the first state to the second. -/
def RelRun (rel : A → S → S → Prop) : List A → S → S → Prop
  | [], s, s' => s = s'
  | a :: as, s, s' => ∃ t, rel a s t ∧ RelRun rel as t s'

variable {rel : A → S → S → Prop}

theorem relRun_append (as bs : List A) :
    ∀ s s', RelRun rel (as ++ bs) s s' ↔ ∃ t, RelRun rel as s t ∧ RelRun rel bs t s' := by
  induction as with
  | nil =>
    intro s s'
    simp [RelRun]
  | cons a as ih =>
    intro s s'
    simp only [List.cons_append, RelRun, ih]
    constructor
    · rintro ⟨u, ha, t, has, hbs⟩
      exact ⟨t, ⟨u, ha, has⟩, hbs⟩
    · rintro ⟨t, ⟨u, ha, has⟩, hbs⟩
      exact ⟨u, ha, t, has, hbs⟩

/-- A request that is itself a run of smaller ones. -/
theorem relRun_flatMap {B : Type} (parts : B → List A) (bs : List B) :
    ∀ s s', RelRun rel (bs.flatMap parts) s s' ↔ RelRun (fun b => RelRun rel (parts b)) bs s s' := by
  induction bs with
  | nil => exact fun s s' => Iff.rfl
  | cons b bs ih =>
    intro s s'
    simp only [List.flatMap_cons, relRun_append, RelRun, ih]

/-- What holds at the start and is kept by each request, given the requests before it, holds at the
    end. -/
theorem inv_of_relRun {I : List A → S → Prop} (as : List A)
    (hrel : ∀ before a s t, before ++ [a] <+: as → I before s → rel a s t → I (before ++ [a]) t)
    {s s' : S} (h0 : I [] s) (hrun : RelRun rel as s s') : I as s' := by
  -- the requests before the ones still to come are generalised
  have hfrom : ∀ (rest before : List A) (s : S), before ++ rest = as → I before s →
      RelRun rel rest s s' → I as s' := by
    intro rest
    induction rest with
    | nil =>
      rintro before s hsplit hI rfl
      rwa [← hsplit, List.append_nil]
    | cons a rest ih =>
      rintro before s hsplit hI ⟨t, ha, hrest⟩
      have hsplit' : before ++ [a] ++ rest = as := by rw [← hsplit, List.append_assoc]; rfl
      exact ih (before ++ [a]) t hsplit' (hrel before a s t ⟨rest, hsplit'⟩ hI ha) hrest
  exact hfrom as [] s rfl h0 hrun

end Doodle.Lib
