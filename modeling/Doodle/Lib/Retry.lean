/-
  A loop of a bounded number of rounds over a link that may be down, for arbitrary states and
  errors. In a round with the link up a call is made; with the link down it is connected. After a
  failed call the loop goes on, with or without connecting first (`redial`). One variable holds
  the error of the last thing tried, call or connect.

  * `loop_unserved_iff`: when the loop ends without an error and without a served call.
  * `loop_keeps`: what calls and connects keep, the loop keeps.
  * `calls`: the states in which the loop makes its call. What holds in them (`mem_calls`), and when
    there are none (`calls_eq_nil_iff`), for a loop that does not redial.
-/
import Doodle.Go.Result

namespace Doodle.Lib

open Doodle.Go

variable {σ ε : Type}

/-- What a retry loop works with. -/
structure Link (σ ε : Type) where
  up : σ → Bool
  call : σ → Res ε Unit × σ
  connect : σ → Option ε × σ
  redial : Bool

namespace Link

/-- The loop with that many rounds left. `served` says that the last call was answered, `err` is
    the last error; the result is their value after the loop. -/
def loop (L : Link σ ε) : Nat → σ → Bool → Option ε → Res ε (Bool × Option ε) × σ
  | 0, s, served, err => (.ok (served, err), s)
  | n + 1, s, served, _ =>
    if L.up s then
      match L.call s with
      | (.ok (), s') => (.ok (true, none), s')
      | (.err e, s') =>
        if L.redial then
          match L.connect s' with
          | (err, s'') => loop L n s'' false err
        else loop L n s' false (some e)
      | (.panic p, s') => (.panic p, s')
    else
      match L.connect s with
      | (err, s') => loop L n s' served err

/-! ## Ending on a connect -/

/-- The state from which a round connects, if it does. -/
def dial (L : Link σ ε) (s : σ) : Option σ :=
  if L.up s then
    if L.redial then
      match L.call s with
      | (.err _, s') => some s'
      | _ => none
    else none
  else some s

/-- Each of `n + 1` rounds comes to a connect, and the last one succeeds. -/
def LastConnects (L : Link σ ε) : Nat → σ → Prop
  | 0, s => ∃ s', L.dial s = some s' ∧ (L.connect s').1 = none
  | n + 1, s => ∃ s', L.dial s = some s' ∧ LastConnects L n (L.connect s').2

/-- Calls leave the link up, in a loop that does not redial. -/
def Steady (L : Link σ ε) : Prop := L.redial = false → ∀ s, L.up s = true → L.up (L.call s).2 = true

/-- With the link up and no redial, the loop ends with a served call or an error. -/
theorem loop_up_ne (L : Link σ ε) (hL : L.Steady) (hredial : L.redial = false) (n : Nat) :
    ∀ (s : σ) (e : ε), L.up s = true → (L.loop n s false (some e)).1 ≠ .ok (false, none) := by
  induction n with
  | zero => intro s e _ h; cases h
  | succ n ih =>
    intro s e hup
    have hstay := hL hredial s hup
    simp only [loop, hup, if_true, hredial, Bool.false_eq_true, if_false]
    generalize L.call s = r at hstay ⊢
    obtain ⟨_ | e' | p, s'⟩ := r
    · exact nofun
    · exact ih s' e' hstay
    · exact nofun

/-- One round: the loop can only end so if the round comes to a connect. -/
theorem loop_succ_unserved_iff (L : Link σ ε) (hL : L.Steady) (n : Nat) (s : σ)
    (err : Option ε) : (L.loop (n + 1) s false err).1 = .ok (false, none) ↔
      ∃ s', L.dial s = some s' ∧
        (L.loop n (L.connect s').2 false (L.connect s').1).1 = .ok (false, none) := by
  cases hup : L.up s with
  | false => simp [loop, dial, hup]
  | true =>
    rcases hcall : L.call s with ⟨r, s'⟩
    cases hredial : L.redial with
    | true => cases r <;> simp [loop, dial, hup, hcall, hredial]
    | false =>
      have hs' : L.up s' = true := by
        have hstay := hL hredial s hup
        rwa [hcall] at hstay
      cases r with
      | err e => simpa [loop, dial, hup, hcall, hredial] using loop_up_ne L hL hredial n s' e hs'
      | ok u => simp [loop, dial, hup, hcall, hredial]
      | panic p => simp [loop, dial, hup, hcall, hredial]

/-- No error and no served call, exactly when the last round ends on a connect that succeeds. -/
theorem loop_unserved_iff (L : Link σ ε) (hL : L.Steady) (n : Nat) :
    ∀ (s : σ) (err : Option ε),
      (L.loop (n + 1) s false err).1 = .ok (false, none) ↔ L.LastConnects n s := by
  induction n with
  | zero =>
    intro s err
    rw [loop_succ_unserved_iff L hL]
    simp [loop, LastConnects]
  | succ n ih =>
    intro s err
    rw [loop_succ_unserved_iff L hL]
    simp only [ih, LastConnects]

/-! ## What the loop keeps -/

/-- What holds at the start, and is kept by calls and by the connects the loop can come to, holds
    after the loop. -/
theorem loop_keeps (L : Link σ ε) {P : σ → Prop} (hcall : ∀ s, P s → P (L.call s).2)
    (hconn : ∀ s, P s → L.up s = false ∨ L.redial = true → P (L.connect s).2) (n : Nat) :
    ∀ (s : σ) (served : Bool) (err : Option ε), P s → P (L.loop n s served err).2 := by
  induction n with
  | zero => intro s served err h; exact h
  | succ n ih =>
    intro s served err h
    cases hup : L.up s with
    | false =>
      simp only [loop, hup, Bool.false_eq_true, if_false]
      exact ih _ _ _ (hconn s h (Or.inl hup))
    | true =>
      have hs' := hcall s h
      simp only [loop, hup, if_true]
      generalize L.call s = r at hs' ⊢
      obtain ⟨_ | e | p, s'⟩ := r
      · exact hs'
      · cases hredial : L.redial with
        | false => exact ih s' false (some e) hs'
        | true => exact ih _ false _ (hconn s' hs' (Or.inr hredial))
      · exact hs'

/-- A loop whose call is never answered does not come to a served call. -/
theorem loop_not_served (L : Link σ ε) (hcall : ∀ s, (L.call s).1 ≠ .ok ()) (n : Nat) :
    ∀ (s : σ) (err : Option ε) (r : Bool × Option ε),
      (L.loop n s false err).1 = .ok r → r.1 = false := by
  induction n with
  | zero => intro s err r h; cases h; rfl
  | succ n ih =>
    intro s err r h
    cases hup : L.up s with
    | false =>
      simp only [loop, hup, Bool.false_eq_true, if_false] at h
      exact ih _ _ r h
    | true =>
      have hs := hcall s
      simp only [loop, hup, if_true] at h
      generalize L.call s = x at hs h
      obtain ⟨_ | e | p, s'⟩ := x
      · exact absurd rfl hs
      · cases hredial : L.redial with
        | false =>
          rw [hredial] at h
          exact ih s' (some e) r h
        | true =>
          rw [hredial] at h
          exact ih _ _ r h
      · cases h

/-! ## Where the calls are made -/

/-- The states in which the loop makes its call. -/
def calls (L : Link σ ε) : Nat → σ → List σ
  | 0, _ => []
  | n + 1, s =>
    if L.up s then
      s :: match L.call s with
        | (.err _, s') => calls L n (if L.redial then (L.connect s').2 else s')
        | _ => []
    else calls L n (L.connect s).2

/-- The next `n` connects fail. -/
def AllFail (connect : σ → Option ε × σ) : Nat → σ → Prop
  | 0, _ => True
  | n + 1, s => (connect s).1 ≠ none ∧ AllFail connect n (connect s).2

/-- With the link up and no redial, what calls keep holds at each call. -/
theorem mem_calls (L : Link σ ε) (hredial : L.redial = false) {P : σ → Prop}
    (hup : ∀ s, P s → L.up s = true) (hcall : ∀ s, P s → P (L.call s).2) (n : Nat) :
    ∀ s, P s → ∀ s' ∈ L.calls n s, P s' := by
  induction n with
  | zero => intro s _ s' hs'; cases hs'
  | succ n ih =>
    intro s h s' hs'
    have hnext := hcall s h
    simp only [calls, hup s h, if_true, hredial, Bool.false_eq_true, if_false] at hs'
    generalize L.call s = r at hnext hs'
    rcases List.mem_cons.mp hs' with rfl | hs'
    · exact h
    · obtain ⟨_ | e | p, s₁⟩ := r
      · cases hs'
      · exact ih s₁ hnext s' hs'
      · cases hs'

/-- With the link down there is no call exactly when all connects but the last round's fail. -/
theorem calls_eq_nil_iff (L : Link σ ε)
    (hconn : ∀ s, L.up (L.connect s).2 = (L.connect s).1.isNone) (n : Nat) :
    ∀ s, L.up s = false → (L.calls (n + 1) s = [] ↔ AllFail L.connect n s) := by
  induction n with
  | zero => intro s hdown; simp [calls, hdown, AllFail]
  | succ n ih =>
    intro s hdown
    have hnext := hconn s
    rw [calls, if_neg (by simp [hdown]), AllFail]
    cases he : (L.connect s).1 with
    | none =>
      have hup : L.up (L.connect s).2 = true := by rw [hnext, he]; rfl
      simp [calls, hup]
    | some e =>
      have hstill : L.up (L.connect s).2 = false := by rw [hnext, he]; rfl
      simp [ih _ hstill]

end Link

end Doodle.Lib
