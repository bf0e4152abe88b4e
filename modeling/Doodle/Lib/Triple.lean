/-
  Pre- and postconditions of calls that may fail half-way.

  `Triple P x Q R`: from a state with `P` the action ends with a value and a state that have `Q`, or
  with an error and a state that have `R`. The rules are those of the program's own shape: `pure`,
  `>>=`, and `throw` and `tryCatch` for programs that go on after an error.

  A program over calls that may fail (`ExceptT E (Prog A)`), run against a server, is an action on
  the server's state (`Prog.act`), and its rules are those of the action.
-/
import Doodle.Lib.Action
import Doodle.Lib.Prog

namespace Doodle.Lib

variable {E S α β : Type}

namespace Action

variable {x : Action E S α} {P : S → Prop} {Q : α → S → Prop} {Q' : β → S → Prop}
  {R : E → S → Prop}

/-- From a state with `P`, a value comes with `Q` and an error with `R`. -/
def Triple (P : S → Prop) (x : Action E S α) (Q : α → S → Prop) (R : E → S → Prop) : Prop :=
  ∀ s, P s → (∀ a s', x s = (.ok a, s') → Q a s') ∧ ∀ e s', x s = (.error e, s') → R e s'

theorem triple_pure {a : α} (h : ∀ s, P s → Q a s) : Triple P (pure a : Action E S α) Q R := by
  intro s hs
  refine ⟨fun b s' heq => ?_, fun e s' heq => (by cases heq)⟩
  cases heq
  exact h s hs

theorem triple_bind {f : α → Action E S β} (hx : Triple P x Q R)
    (hf : ∀ a, Triple (Q a) (f a) Q' R) : Triple P (x >>= f) Q' R := by
  intro s hs
  rcases h : x s with ⟨e | a, s'⟩
  · rw [bind_error h]
    refine ⟨fun a s'' heq => (by cases heq), fun e' s'' heq => ?_⟩
    cases heq
    exact (hx s hs).2 e s' h
  · rw [bind_ok h]
    exact hf a s' ((hx s hs).1 a s' h)

theorem Triple.mono_error {R' : E → S → Prop} (hx : Triple P x Q R)
    (hR : ∀ e s, R e s → R' e s) : Triple P x Q R' :=
  fun s hs => ⟨(hx s hs).1, fun e s' heq => hR e s' ((hx s hs).2 e s' heq)⟩

variable {I : S → Prop}

/-- The state after it has what both outcomes have. -/
theorem Triple.state (hx : Triple P x (fun _ => I) fun _ => I) {s : S} (hs : P s) : I (x s).2 := by
  rcases h : x s with ⟨e | a, s'⟩
  · exact (hx s hs).2 e s' h
  · exact (hx s hs).1 a s' h

theorem triple_of_state (h : ∀ s, P s → I (x s).2) : Triple P x (fun _ => I) fun _ => I := by
  intro s hs
  have hstate := h s hs
  refine ⟨fun a s' heq => ?_, fun e s' heq => ?_⟩
  · rwa [heq] at hstate
  · rwa [heq] at hstate

end Action

/-! ## Programs -/

namespace Prog

variable {C W : Type} {A : C → Type}

/-- A program that may fail, run against a server. -/
def act (serve : (c : C) → W → A c × W) (x : ExceptT E (Prog A) α) : Action E W α :=
  fun w => run serve x.run w

variable {serve : (c : C) → W → A c × W} {x : ExceptT E (Prog A) α}

theorem act_bind (f : α → ExceptT E (Prog A) β) :
    act serve (x >>= f) = act serve x >>= fun a => act serve (f a) := by
  funext w
  have hrun : act serve (x >>= f) w = run serve (x >>= f).run w := rfl
  rw [hrun, ExceptT.run_bind, run_bind]
  rcases h : act serve x w with ⟨e | a, w'⟩
  · rw [Action.bind_error h, show run serve x.run w = (.error e, w') from h]
    rfl
  · rw [Action.bind_ok h, show run serve x.run w = (.ok a, w') from h]
    rfl

variable {P : W → Prop} {Q : α → W → Prop} {Q' : β → W → Prop} {R R' : E → W → Prop}

theorem triple_act_bind {f : α → ExceptT E (Prog A) β} (hx : (act serve x).Triple P Q R)
    (hf : ∀ a, (act serve (f a)).Triple (Q a) Q' R) : (act serve (x >>= f)).Triple P Q' R := by
  rw [act_bind]
  exact Action.triple_bind hx hf

theorem triple_throw {e : E} (h : ∀ w, P w → R e w) :
    (act serve (throw e : ExceptT E (Prog A) α)).Triple P Q R := by
  intro w hw
  refine ⟨fun a w' heq => (by cases heq), fun e' w' heq => ?_⟩
  cases heq
  exact h w hw

theorem triple_tryCatch {f : E → ExceptT E (Prog A) α} (hx : (act serve x).Triple P Q R')
    (hf : ∀ e, (act serve (f e)).Triple (R' e) Q R) :
    (act serve (tryCatch x f)).Triple P Q R := by
  intro w hw
  have hrun : act serve (tryCatch x f) w = run serve (x.run >>= fun
      | .ok a => (pure (.ok a) : Prog A (Except E α))
      | .error e => (f e).run) w := rfl
  rw [hrun, run_bind]
  rcases h : run serve x.run w with ⟨e | a, w'⟩
  · exact hf e w' ((hx w hw).2 e w' h)
  · refine ⟨fun b w'' heq => ?_, fun e w'' heq => (by cases heq)⟩
    cases heq
    exact (hx w hw).1 a w' h

end Prog

end Doodle.Lib
