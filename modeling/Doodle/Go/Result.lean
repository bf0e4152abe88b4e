/-
  What a Go call can come to: a value, an error, or a panic. A function of the source that
  returns `(T, error)` is modelled with `Res`, and a run-time panic inside it (a nil pointer, a
  slice bound, a failed type assertion) is the third case.
-/
import Mathlib.Tactic.Common

namespace Doodle.Go

/-- The outcome of a call: `ok` is a nil error. -/
inductive Res (ε α : Type) where
  | ok (a : α)
  | err (e : ε)
  | panic (why : String)
  deriving DecidableEq, Repr

namespace Res

variable {ε α β : Type}

/-- A nil error. -/
def isOk : Res ε α → Bool
  | ok _ => true
  | _ => false

/-- `if err != nil { return err }`: go on with the value, pass an error or a panic up. -/
def bind (x : Res ε α) (f : α → Res ε β) : Res ε β :=
  match x with
  | ok a => f a
  | err e => err e
  | panic p => panic p

instance : Monad (Res ε) where
  pure := ok
  bind := bind

@[simp] theorem isOk_ok (a : α) : (ok a : Res ε α).isOk = true := rfl
@[simp] theorem isOk_err (e : ε) : (err e : Res ε α).isOk = false := rfl
@[simp] theorem isOk_panic (p : String) : (panic p : Res ε α).isOk = false := rfl

@[simp] theorem pure_eq (a : α) : (pure a : Res ε α) = ok a := rfl
@[simp] theorem ok_bind (a : α) (f : α → Res ε β) : (ok a >>= f) = f a := rfl
@[simp] theorem err_bind (e : ε) (f : α → Res ε β) : (err e >>= f) = err e := rfl
@[simp] theorem panic_bind (p : String) (f : α → Res ε β) : (panic p >>= f) = panic p := rfl

end Res

end Doodle.Go
