/-
  Steps in sequence, without an undo.

  A plan is what is known beforehand of the steps an action will take. A step goes on, or it stops
  the action: `refused`, without doing anything, or `stray`, with an effect nothing is known of. A
  step that goes on does or does not keep a property of the state. `Follows` says that an action
  goes by a plan; the rule for `>>=` puts the plans one after the other (`follows_bind`).

  A plan is `Quiet` when the step at which it stops, if any, is refused, and every step before it
  keeps the property. That is exactly when the action, failing, leaves the property as it was
  (`keeps_of_quiet`, `quiet_of_keeps`).
-/
import Doodle.Lib.Action

namespace Doodle.Lib

namespace Plan

/-- How a step ends the action. -/
inductive Stop where
  | refused
  | stray
  deriving DecidableEq, Repr

/-- A step: what stops it, and whether it keeps the property when it goes on. -/
structure Step where
  stop : Option Stop
  keeps : Bool
  deriving DecidableEq, Repr

/-- A step that changes nothing and goes on when `b` holds. -/
def gate (b : Bool) : Step := ⟨if b then none else some .refused, true⟩

/-- Where the first stop is, it is refused, and the steps before it keep the property. -/
def Quiet (p : List Step) : Prop :=
  ∀ before s after, p = before ++ s :: after → (∀ t ∈ before, t.stop = none) →
    ∀ e, s.stop = some e → e = .refused ∧ ∀ t ∈ before, t.keeps = true

/-- The end of a plan, and whether the steps up to it keep the property. -/
inductive End where
  | goes (keeps : Bool)
  | refused (keeps : Bool)
  | stray
  deriving DecidableEq

/-- The end of a plan after steps that go on. -/
def End.after (b : Bool) : End → End
  | goes c => goes (b && c)
  | refused c => refused (b && c)
  | stray => stray

/-- The end of two plans, one after the other. -/
def End.andThen : End → End → End
  | goes b, e => e.after b
  | refused b, _ => refused b
  | stray, _ => stray

theorem End.after_eq_goes {b c : Bool} {e : End} (h : e.after b = goes c) :
    ∃ d, e = goes d ∧ c = (b && d) := by
  cases e with
  | goes d =>
    cases h
    exact ⟨d, rfl, rfl⟩
  | refused d => cases h
  | stray => cases h

theorem End.after_eq_refused {b c : Bool} {e : End} (h : e.after b = refused c) :
    ∃ d, e = refused d ∧ c = (b && d) := by
  cases e with
  | goes d => cases h
  | refused d =>
    cases h
    exact ⟨d, rfl, rfl⟩
  | stray => cases h

theorem End.after_eq_stray {b : Bool} {e : End} (h : e.after b = stray) : e = stray := by
  cases e with
  | goes d => cases h
  | refused d => cases h
  | stray => rfl

/-- The end of a plan whose next step has stopped. -/
def Stop.close : Stop → End
  | refused => .refused true
  | stray => .stray

def fate : List Step → End
  | [] => .goes true
  | s :: p =>
    match s.stop with
    | none => (fate p).after s.keeps
    | some e => e.close

theorem fate_append (p p' : List Step) : fate (p ++ p') = (fate p).andThen (fate p') := by
  induction p with
  | nil =>
    simp only [List.nil_append, fate]
    cases fate p' <;> simp [End.andThen, End.after]
  | cons s p ih =>
    simp only [List.cons_append, fate]
    cases s.stop with
    | none =>
      simp only [ih]
      cases fate p with
      | goes b => cases fate p' <;> simp [End.andThen, End.after, Bool.and_assoc]
      | refused b => rfl
      | stray => rfl
    | some e => cases e <;> rfl

/-- The end of a plan that stops after `before`. -/
theorem fate_of_stop {s : Step} {e : Stop} (hs : s.stop = some e) (after : List Step) :
    ∀ before : List Step, (∀ t ∈ before, t.stop = none) →
      fate (before ++ s :: after) = e.close.after (before.all (·.keeps)) := by
  intro before
  induction before with
  | nil =>
    intro _
    simp only [List.nil_append, fate, hs]
    cases e <;> rfl
  | cons t before ih =>
    intro hgo
    rw [List.forall_mem_cons] at hgo
    simp only [List.cons_append, fate, hgo.1, ih hgo.2, List.all_cons]
    cases e <;> simp [Stop.close, End.after]

theorem fate_of_go {p : List Step} (h : ∀ t ∈ p, t.stop = none) :
    fate p = .goes (p.all (·.keeps)) := by
  induction p with
  | nil => rfl
  | cons s p ih =>
    rw [List.forall_mem_cons] at h
    simp only [fate, h.1, ih h.2, End.after, List.all_cons]

/-- A plan goes through, or it has a first stop. -/
theorem go_or_stop (p : List Step) : (∀ t ∈ p, t.stop = none) ∨
    ∃ before s after e, p = before ++ s :: after ∧ (∀ t ∈ before, t.stop = none) ∧
      s.stop = some e := by
  induction p with
  | nil => exact .inl fun t ht => by cases ht
  | cons s p ih =>
    cases hs : s.stop with
    | some e => exact .inr ⟨[], s, p, e, rfl, (fun t ht => by cases ht), hs⟩
    | none =>
      rcases ih with h | ⟨before, s', after, e, rfl, hgo, hs'⟩
      · exact .inl (List.forall_mem_cons.mpr ⟨hs, h⟩)
      · exact .inr ⟨s :: before, s', after, e, rfl, List.forall_mem_cons.mpr ⟨hs, hgo⟩, hs'⟩

theorem quiet_of_refused {p : List Step} (h : fate p = .refused true) : Quiet p := by
  rintro before s after rfl hgo e hs
  rw [fate_of_stop hs after before hgo] at h
  cases e with
  | refused =>
    refine ⟨rfl, List.all_eq_true.mp ?_⟩
    simpa [Stop.close, End.after] using h
  | stray => cases h

theorem quiet_of_goes {p : List Step} {b : Bool} (h : fate p = .goes b) : Quiet p := by
  rintro before s after rfl hgo e hs
  rw [fate_of_stop hs after before hgo] at h
  cases e <;> cases h

/-- A quiet plan goes through, or is refused with the property kept. -/
theorem Quiet.fate_eq {p : List Step} (h : Quiet p) :
    (∃ b, fate p = .goes b) ∨ fate p = .refused true := by
  rcases go_or_stop p with hgo | ⟨before, s, after, e, rfl, hgo, hs⟩
  · exact .inl ⟨_, fate_of_go hgo⟩
  · obtain ⟨rfl, hkeeps⟩ := h before s after rfl hgo e hs
    rw [fate_of_stop hs after before hgo, List.all_eq_true.mpr hkeeps]
    exact .inr rfl

end Plan

open Plan

namespace Action

variable {E S α β : Type}

/-- From `s` the action goes by the plan: it ends with `a` in `s'`, or fails where the plan stops.
    A stray step fails without `Q` when `wild` holds, and is left open otherwise. -/
structure Follows (Q : S → Prop) (wild : Prop) (x : Action E S α) (s : S) (p : List Step) (a : α)
    (s' : S) : Prop where
  goes : ∀ b, fate p = .goes b → x s = (.ok a, s') ∧ (Q s' ↔ Q s ∧ b = true)
  refused : ∀ b, fate p = .refused b → ∃ e t, x s = (.error e, t) ∧ (Q t ↔ Q s ∧ b = true)
  stray : fate p = .stray → wild → ∃ e t, x s = (.error e, t) ∧ ¬ Q t

variable {Q : S → Prop} {wild : Prop} {x : Action E S α} {f : α → Action E S β} {s s' s'' : S}
  {p p' : List Step} {a : α} {c : β}

theorem follows_pure (a : α) (s : S) : Follows Q wild (pure a : Action E S α) s [] a s where
  goes b h := by
    cases h
    exact ⟨rfl, by simp⟩
  refused b h := by cases h
  stray h := by cases h

/-- An action of one step that goes on. -/
theorem follows_of_go {step : Step} (hstop : step.stop = none) (hok : x s = (.ok a, s'))
    (hQ : Q s' ↔ Q s ∧ step.keeps = true) : Follows Q wild x s [step] a s' := by
  have hfate : fate [step] = .goes step.keeps := by simp [fate, hstop, End.after]
  refine ⟨fun b h => ?_, fun b h => ?_, fun h => ?_⟩
  · cases hfate.symm.trans h
    exact ⟨hok, hQ⟩
  · cases hfate.symm.trans h
  · cases hfate.symm.trans h

theorem follows_of_refused {step : Step} (hstop : step.stop = some .refused) {e : E} {t : S}
    (herr : x s = (.error e, t)) (hQ : Q t ↔ Q s) : Follows Q wild x s [step] a s' := by
  have hfate : fate [step] = .refused true := by simp [fate, hstop, Stop.close]
  refine ⟨fun b h => ?_, fun b h => ?_, fun h => ?_⟩
  · cases hfate.symm.trans h
  · cases hfate.symm.trans h
    exact ⟨e, t, herr, hQ.trans (and_iff_left rfl).symm⟩
  · cases hfate.symm.trans h

theorem follows_of_stray {step : Step} (hstop : step.stop = some .stray)
    (herr : wild → ∃ e t, x s = (.error e, t) ∧ ¬ Q t) : Follows Q wild x s [step] a s' := by
  have hfate : fate [step] = .stray := by simp [fate, hstop, Stop.close]
  refine ⟨fun b h => ?_, fun b h => ?_, fun _ => herr⟩
  · cases hfate.symm.trans h
  · cases hfate.symm.trans h

/-- The plans of two actions, one after the other. -/
theorem follows_bind (hx : Follows Q wild x s p a s')
    (hf : Follows Q wild (f a) s' p' c s'') : Follows Q wild (x >>= f) s (p ++ p') c s'' := by
  have happend := fate_append p p'
  cases hp : fate p with
  | goes b =>
    obtain ⟨hgo, hQ⟩ := hx.goes b hp
    rw [hp] at happend
    refine ⟨fun b' h => ?_, fun b' h => ?_, fun h hwild => ?_⟩
    · obtain ⟨d, hp', rfl⟩ := End.after_eq_goes (happend.symm.trans h)
      obtain ⟨hgo', hQ'⟩ := hf.goes d hp'
      rw [bind_ok hgo, hgo', hQ', hQ, and_assoc, Bool.and_eq_true]
      exact ⟨rfl, Iff.rfl⟩
    · obtain ⟨d, hp', rfl⟩ := End.after_eq_refused (happend.symm.trans h)
      obtain ⟨e, t, herr, hQ'⟩ := hf.refused d hp'
      refine ⟨e, t, (bind_ok hgo f).trans herr, ?_⟩
      rw [hQ', hQ, and_assoc, Bool.and_eq_true]
    · obtain ⟨e, t, herr, hQ'⟩ := hf.stray (End.after_eq_stray (happend.symm.trans h)) hwild
      exact ⟨e, t, (bind_ok hgo f).trans herr, hQ'⟩
  | refused b =>
    obtain ⟨e, t, herr, hQ⟩ := hx.refused b hp
    rw [hp] at happend
    refine ⟨fun b' h => ?_, fun b' h => ?_, fun h => ?_⟩
    · cases happend.symm.trans h
    · cases happend.symm.trans h
      exact ⟨e, t, bind_error herr f, hQ⟩
    · cases happend.symm.trans h
  | stray =>
    rw [hp] at happend
    refine ⟨fun b' h => ?_, fun b' h => ?_, fun _ hwild => ?_⟩
    · cases happend.symm.trans h
    · cases happend.symm.trans h
    · obtain ⟨e, t, herr, hQ⟩ := hx.stray hp hwild
      exact ⟨e, t, bind_error herr f, hQ⟩

/-- An action that goes by a quiet plan and fails keeps the property. -/
theorem Follows.keeps_of_quiet (h : Follows Q wild x s p a s') (hs : Q s) (hp : Quiet p) {e : E}
    {t : S} (herr : x s = (.error e, t)) : Q t := by
  rcases hp.fate_eq with ⟨b, hgo⟩ | hrefused
  · have hok := (h.goes b hgo).1
    rw [hok] at herr
    cases herr
  · obtain ⟨e', t', herr', hQ⟩ := h.refused true hrefused
    rw [herr'] at herr
    cases herr
    exact hQ.mpr ⟨hs, rfl⟩

/-- And when stray steps are wild, only a quiet plan does. -/
theorem Follows.quiet_of_keeps (h : Follows Q wild x s p a s') (hwild : wild)
    (hkeeps : ∀ e t, x s = (.error e, t) → Q t) : Quiet p := by
  cases hp : fate p with
  | goes b => exact quiet_of_goes hp
  | refused b =>
    obtain ⟨e, t, herr, hQ⟩ := h.refused b hp
    obtain rfl := (hQ.mp (hkeeps e t herr)).2
    exact quiet_of_refused hp
  | stray =>
    obtain ⟨e, t, herr, hQ⟩ := h.stray hp hwild
    exact absurd (hkeeps e t herr) hQ

end Action

end Doodle.Lib
