/-
  Programs that call a server, as data.

  `C` is the type of calls and `A c` the type of answers to `c`. A program is done with a value
  or asks a call and goes on with the answer. `Prog.run serve p w` runs `p` against a server with
  state `w`; `run_bind` is how runs compose. `Prog.log sample p` is the list of calls `p` makes
  when every call `c` is answered `sample c`: it is what the recording server `record sample`
  has in its state after the run (`run_record`), so two programs with different logs are told
  apart by a server.
-/
import Mathlib.Tactic.Common

namespace Doodle.Lib

/-- A program over calls `C` with answers `A`. -/
inductive Prog {C : Type} (A : C → Type) (α : Type) where
  | done (a : α)
  | ask (c : C) (k : A c → Prog A α)

namespace Prog

variable {C : Type} {A : C → Type} {α β : Type}

def bind (p : Prog A α) (f : α → Prog A β) : Prog A β :=
  match p with
  | done a => f a
  | ask c k => ask c fun x => (k x).bind f

instance : Monad (Prog A) where
  pure := done
  bind := bind

/-- Make one call. -/
def call (c : C) : Prog A (A c) := ask c done

@[simp] theorem pure_eq (a : α) : (pure a : Prog A α) = done a := rfl
@[simp] theorem done_bind (a : α) (f : α → Prog A β) : (done a >>= f) = f a := rfl
@[simp] theorem ask_bind (c : C) (k : A c → Prog A α) (f : α → Prog A β) :
    (ask c k >>= f) = ask c fun x => k x >>= f := rfl

theorem bind_done (p : Prog A α) : (p >>= done) = p := by
  induction p with
  | done a => rfl
  | ask c k ih =>
    rw [ask_bind]
    exact congrArg (ask c) (funext ih)

/-! ## Runs -/

variable {W : Type} (serve : (c : C) → W → A c × W)

/-- The result of a program and the server's state after it. -/
def run : Prog A α → W → α × W
  | done a, w => (a, w)
  | ask c k, w => run (k (serve c w).1) (serve c w).2

@[simp] theorem run_done (a : α) (w : W) : run serve (done a : Prog A α) w = (a, w) := rfl

@[simp] theorem run_ask (c : C) (k : A c → Prog A α) (w : W) :
    run serve (ask c k) w = run serve (k (serve c w).1) (serve c w).2 := rfl

theorem run_bind (p : Prog A α) (f : α → Prog A β) :
    ∀ w, run serve (p >>= f) w = run serve (f (run serve p w).1) (run serve p w).2 := by
  induction p with
  | done a => intro w; rfl
  | ask c k ih =>
    intro w
    rw [ask_bind, run_ask, run_ask]
    exact ih _ _

/-! ## The calls of a program -/

variable (sample : (c : C) → A c)

/-- The calls made when every call is answered by its sample. -/
def log : Prog A α → List C
  | done _ => []
  | ask c k => c :: log (k (sample c))

@[simp] theorem log_done (a : α) : log sample (done a : Prog A α) = [] := rfl

@[simp] theorem log_ask (c : C) (k : A c → Prog A α) :
    log sample (ask c k) = c :: log sample (k (sample c)) := rfl

/-- The server that answers with samples and writes down the calls, newest first. -/
def record (c : C) (w : List C) : A c × List C := (sample c, c :: w)

theorem run_record (p : Prog A α) :
    ∀ w, (run (record sample) p w).2 = (log sample p).reverse ++ w := by
  induction p with
  | done a => intro w; rfl
  | ask c k ih =>
    intro w
    simp only [run_ask, record, ih, log_ask, List.reverse_cons, List.append_assoc,
      List.singleton_append]

end Prog

end Doodle.Lib
