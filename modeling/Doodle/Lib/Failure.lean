/-
  Programs whose calls may fail, with one call failing at a given position.

  Every call answers with data or with an error. `failAt serve e n p w` is the run in which the call
  at position `n` answers `e` and does nothing. A program that `Aborts` on `e` ends with it wherever
  it meets it; then the run with a failure at `n` ends in the state before that call of the run
  without failures (`failAt_of_aborts`). `states` lists these states; `states_bind` is how they
  compose.
-/
import Doodle.Lib.Prog

namespace Doodle.Lib.Prog

variable {C : Type} {E : Type} {D : C → Type} {α β W : Type}

/-- The run of a program when its call at position `n` fails with `e`. -/
def failAt (serve : (c : C) → W → Except E (D c) × W) (e : E) :
    Nat → Prog (fun c => Except E (D c)) α → W → α × W
  | _, done a, w => (a, w)
  | 0, ask _ k, w => run serve (k (.error e)) w
  | n + 1, ask c k, w => failAt serve e n (k (serve c w).1) (serve c w).2

/-- Wherever a call fails with `e`, the program ends with it. -/
def Aborts (e : E) : Prog (fun c => Except E (D c)) (Except E α) → Prop
  | done _ => True
  | ask _ k => k (.error e) = done (.error e) ∧ ∀ a, Aborts e (k a)

/-- Sequences of programs that end with the first error. -/
theorem aborts_bind {e : E} {p : Prog (fun c => Except E (D c)) (Except E α)}
    {f : Except E α → Prog (fun c => Except E (D c)) (Except E β)} (hp : Aborts e p)
    (herr : f (.error e) = done (.error e)) (hf : ∀ a, Aborts e (f a)) : Aborts e (p >>= f) := by
  induction p with
  | done a => exact hf a
  | ask c k ih =>
    refine ⟨?_, fun a => ih a (hp.2 a)⟩
    show (k (.error e) >>= f) = _
    rw [hp.1, done_bind, herr]

section States

variable {A : C → Type} (serve : (c : C) → W → A c × W)

/-- The states before each call of a run. -/
def states : Prog A α → W → List W
  | done _, _ => []
  | ask c k, w => w :: states (k (serve c w).1) (serve c w).2

theorem states_bind (p : Prog A α) (f : α → Prog A β) : ∀ w, states serve (p >>= f) w =
    states serve p w ++ states serve (f (run serve p w).1) (run serve p w).2 := by
  induction p with
  | done a => intro w; rfl
  | ask c k ih =>
    intro w
    rw [ask_bind, states, ih]
    rfl

end States

/-- A failure ends a program that aborts on it in the state before the failing call. -/
theorem failAt_of_aborts (serve : (c : C) → W → Except E (D c) × W) {e : E}
    {p : Prog (fun c => Except E (D c)) (Except E α)} (hp : Aborts e p) : ∀ n w,
      failAt serve e n p w =
        ((states serve p w)[n]?.map fun w' => (.error e, w')).getD (run serve p w) := by
  induction p with
  | done a => intro n w; cases n <;> rfl
  | ask c k ih =>
    intro n w
    cases n with
    | zero =>
      rw [failAt, hp.1]
      rfl
    | succ n =>
      rw [failAt, ih _ (hp.2 _)]
      rfl

end Doodle.Lib.Prog
