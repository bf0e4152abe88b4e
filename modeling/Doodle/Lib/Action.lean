/-
  Calls against a state that may fail half-way.

  An `Action E S α` takes the state and gives a value or an error, and the state after it: what
  was done before the error stays done. `onErr` ends a chain of actions with an answer.

  `Ensures I x Q` is the rule of invariants: from a state with `I`, the action ends in a state
  with `I` whether it fails or not, and a value it returns has `Q`. The rules for `pure`, `>>=`
  and `onErr` carry it from the single statements of a program to the whole program.
-/
import Mathlib.Tactic.Common

namespace Doodle.Lib

section Except

variable {ε α β : Type}

theorem except_bind_ok {x : Except ε α} {f : α → Except ε β} {b : β} (h : x >>= f = .ok b) :
    ∃ a, x = .ok a ∧ f a = .ok b := by
  cases x with
  | error e => cases h
  | ok a => exact ⟨a, rfl, h⟩

theorem except_map_ok {x : Except ε α} {f : α → β} {b : β} (h : x.map f = .ok b) :
    ∃ a, x = .ok a ∧ f a = b := by
  cases x with
  | error e => cases h
  | ok a => exact ⟨a, rfl, Except.ok.inj h⟩

end Except

/-- A call against a state `S`: a value or an error, and the state after it. -/
def Action (E S α : Type) := S → Except E α × S

namespace Action

variable {E S α β : Type}

protected def pure (a : α) : Action E S α := fun s => (.ok a, s)

protected def bind (x : Action E S α) (f : α → Action E S β) : Action E S β := fun s =>
  match x s with
  | (.ok a, s') => f a s'
  | (.error e, s') => (.error e, s')

instance : Monad (Action E S) where
  pure := Action.pure
  bind := Action.bind

/-- `if err != nil { answer bad; return }`, then go on. -/
def onErr (x : Action E S α) (bad : E → β) (good : α → S → β × S) : S → β × S := fun s =>
  match x s with
  | (.ok a, s') => good a s'
  | (.error e, s') => (bad e, s')

theorem bind_ok {x : Action E S α} {s s' : S} {a : α} (h : x s = (.ok a, s'))
    (f : α → Action E S β) : (x >>= f) s = f a s' := by
  show Action.bind x f s = _
  simp only [Action.bind, h]

theorem bind_error {x : Action E S α} {s s' : S} {e : E} (h : x s = (.error e, s'))
    (f : α → Action E S β) : (x >>= f) s = (.error e, s') := by
  show Action.bind x f s = _
  simp only [Action.bind, h]

theorem onErr_ok {x : Action E S α} {s s' : S} {a : α} (h : x s = (.ok a, s')) (bad : E → β)
    (good : α → S → β × S) : onErr x bad good s = good a s' := by
  simp only [onErr, h]

theorem onErr_error {x : Action E S α} {s s' : S} {e : E} (h : x s = (.error e, s'))
    (bad : E → β) (good : α → S → β × S) : onErr x bad good s = (bad e, s') := by
  simp only [onErr, h]

/-! ## Invariants -/

/-- The action keeps `I`, failing or not, and what it returns has `Q`. -/
def Ensures (I : S → Prop) (x : Action E S α) (Q : α → Prop) : Prop :=
  ∀ s, I s → I (x s).2 ∧ ∀ a, (x s).1 = .ok a → Q a

variable {I : S → Prop} {x : Action E S α} {Q : α → Prop} {Q' : β → Prop}

theorem ensures_pure {a : α} (h : Q a) : Ensures I (pure a : Action E S α) Q := by
  rintro s hs
  refine ⟨hs, ?_⟩
  rintro b hb
  cases hb
  exact h

theorem ensures_bind {f : α → Action E S β} (hx : Ensures I x Q)
    (hf : ∀ a, Q a → Ensures I (f a) Q') : Ensures I (x >>= f) Q' := by
  intro s hs
  obtain ⟨hI, hQ⟩ := hx s hs
  rcases h : x s with ⟨e | a, s'⟩
  · rw [h] at hI
    rw [bind_error h]
    exact ⟨hI, fun b hb => by cases hb⟩
  · rw [h] at hI hQ
    rw [bind_ok h]
    exact hf a (hQ a rfl) s' hI

end Action

end Doodle.Lib
