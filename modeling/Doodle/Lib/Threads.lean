/-
  Any number of programs on one server, their calls interleaved in any way, while the server's
  state also changes by itself.

  `Rules` says which answers a call may get and where they lead (`serve`), and which changes come
  from elsewhere (`drift`). A `Crew` has a program for each name; names that take no step stand for
  programs that have not started. `Crew.Run` lists the calls of a run with who made them and what
  was answered.

  * `Upholds`: a program checked on its own, against everything the others may do that keeps a
    `Pact`. `Crew.Run.upholds`: programs that do so one by one do so together.
  * `Pact.Triple`: the same with a precondition, call by call.
  * `Rules.Alone`: a program without others. `Crew.Run.alone`: while the others wait.
  * `Crew.Run.path`: the calls of one program in a run are a path of that program.
  * `Crew.Run.upholds_of_others`: one program, in a part of a run (`Crew.Run.split`) where the others
    do not disturb it.
  * `sum_eq_zero_of_fibers`: what is balanced for each name is balanced in the whole.
-/
import Doodle.Lib.Interleave
import Mathlib.Algebra.BigOperators.Group.List.Basic

namespace Doodle.Lib

variable {C : Type} {A : C → Type} {ι α β W : Type}

/-- A call with its answer. -/
abbrev Answered (A : C → Type) := (c : C) × A c

/-- How the server may answer, and how its state may change by itself. -/
structure Rules (A : C → Type) (W : Type) where
  serve : (c : C) → W → A c → W → Prop
  drift : W → W → Prop

/-- A program for each name, and the state of the server they call. -/
structure Crew (ι : Type) (A : C → Type) (α W : Type) where
  prog : ι → Prog A α
  world : W

namespace Prog

/-! ## Paths through a program -/

/-- The program may make these calls, with these answers, and then be the other one. -/
inductive Path : Prog A α → List (Answered A) → Prog A α → Prop
  | refl (p : Prog A α) : Path p [] p
  | ask {c : C} {k : A c → Prog A α} {a : A c} {l : List (Answered A)} {q : Prog A α} :
      Path (k a) l q → Path (.ask c k) (⟨c, a⟩ :: l) q

theorem Path.snoc {p q : Prog A α} {l : List (Answered A)} (h : Path p l q) {c : C}
    {k : A c → Prog A α} (hq : q = .ask c k) (a : A c) : Path p (l ++ [⟨c, a⟩]) (k a) := by
  induction h with
  | refl p =>
    subst hq
    exact .ask (.refl _)
  | ask _ ih => exact .ask (ih hq)

/-- A path through a sequence goes through its first part and then through the second. -/
theorem Path.of_bind {f : α → Prog A β} {b : β} : ∀ {p : Prog A α} {l : List (Answered A)},
    Path (p >>= f) l (.done b) →
      ∃ l₁ l₂ a, l = l₁ ++ l₂ ∧ Path p l₁ (.done a) ∧ Path (f a) l₂ (.done b) := by
  intro p
  induction p with
  | done a => exact fun h => ⟨[], _, a, rfl, .refl _, h⟩
  | ask c k ih =>
    intro l h
    rw [ask_bind] at h
    cases h with
    | ask h =>
      obtain ⟨l₁, l₂, a, rfl, h₁, h₂⟩ := ih _ h
      exact ⟨_ :: l₁, l₂, a, rfl, .ask h₁, h₂⟩

/-- The calls of a path are calls of the program. -/
theorem Path.forall_of_all {P : C → Prop} {p q : Prog A α} {l : List (Answered A)}
    (h : Path p l q) (hp : All P p) : ∀ x ∈ l, P x.1 := by
  induction h with
  | refl p => exact fun x hx => absurd hx List.not_mem_nil
  | ask _ ih =>
    intro x hx
    rcases List.mem_cons.mp hx with rfl | hx
    · exact hp.1
    · exact ih (hp.2 _) x hx

end Prog

namespace Crew

/-! ## Runs -/

section Run

variable [DecidableEq ι] (R : Rules A W)

/-- A run from one crew to another, and the calls made in it, oldest first. -/
inductive Run (s : Crew ι A α W) : List (ι × Answered A) → Crew ι A α W → Prop
  | start : Run s [] s
  | call {tr : List (ι × Answered A)} {t : Crew ι A α W} {i : ι} {c : C} {k : A c → Prog A α}
      {a : A c} {w : W} : Run s tr t → t.prog i = .ask c k → R.serve c t.world a w →
        Run s (tr ++ [(i, ⟨c, a⟩)]) ⟨Function.update t.prog i (k a), w⟩
  | drift {tr : List (ι × Answered A)} {t : Crew ι A α W} {w : W} : Run s tr t →
      R.drift t.world w → Run s tr ⟨t.prog, w⟩

/-- What one of them did in a run. -/
def callsOf (i : ι) (tr : List (ι × Answered A)) : List (Answered A) :=
  (tr.filter fun e => e.1 = i).map Prod.snd

variable {R}

/-- The calls of one program in a run are a path from its start to where it is now. -/
theorem Run.path {s t : Crew ι A α W} {tr : List (ι × Answered A)} (h : Run R s tr t) (i : ι) :
    Prog.Path (s.prog i) (callsOf i tr) (t.prog i) := by
  induction h with
  | start => exact .refl _
  | @call tr t j c k a w _ hask _ ih =>
    unfold callsOf at ih ⊢
    rw [List.filter_append, List.map_append]
    by_cases hj : j = i
    · subst hj
      have hown : ([(j, (⟨c, a⟩ : Answered A))].filter fun e => e.1 = j).map Prod.snd =
          [⟨c, a⟩] := by simp
      rw [hown]
      simpa only [Function.update_self] using ih.snoc hask a
    · have hother : ([(j, (⟨c, a⟩ : Answered A))].filter fun e => e.1 = i).map Prod.snd = [] := by
        simp [hj]
      rw [hother, List.append_nil]
      simpa only [Function.update_of_ne (Ne.symm hj)] using ih
  | drift _ _ ih => exact ih

/-- A run goes through each point of its list of calls. -/
theorem Run.split {s t : Crew ι A α W} {tr : List (ι × Answered A)} (h : Run R s tr t) :
    ∀ {tr₁ tr₂ : List (ι × Answered A)}, tr = tr₁ ++ tr₂ →
      ∃ u, Run R s tr₁ u ∧ Run R u tr₂ t := by
  induction h with
  | start =>
    intro tr₁ tr₂ he
    obtain ⟨rfl, rfl⟩ := List.append_eq_nil_iff.mp he.symm
    exact ⟨s, .start, .start⟩
  | @call tr t i c k a w hrun hask hserve ih =>
    intro tr₁ tr₂ he
    rcases tr₂.eq_nil_or_concat with rfl | ⟨l, e, rfl⟩
    · rw [List.append_nil] at he
      exact ⟨_, he ▸ hrun.call hask hserve, .start⟩
    · rw [List.concat_eq_append, ← List.append_assoc] at he
      obtain ⟨he, hlast⟩ := List.append_inj' he rfl
      obtain ⟨u, h₁, h₂⟩ := ih he
      rw [List.concat_eq_append, ← hlast]
      exact ⟨u, h₁, h₂.call hask hserve⟩
  | drift hrun hdrift ih =>
    intro tr₁ tr₂ he
    obtain ⟨u, h₁, h₂⟩ := ih he
    exact ⟨u, h₁, h₂.drift hdrift⟩

end Run

end Crew

/-! ## One program without others -/

/-- The program may go from one state of the server to another, and end with this result. -/
inductive Rules.Alone (R : Rules A W) : Prog A α → W → α → W → Prop
  | done (a : α) (w : W) : Alone R (.done a) w a w
  | ask {c : C} {k : A c → Prog A α} {w w₁ w₂ : W} {x : A c} {a : α} :
      R.serve c w x w₁ → Alone R (k x) w₁ a w₂ → Alone R (.ask c k) w a w₂

/-- One program may go on for a while and the others wait. -/
theorem Crew.Run.alone [DecidableEq ι] {R : Rules A W} {s : Crew ι A β W} {i : ι} {f : α → Prog A β}
    {p : Prog A α} {w w' : W} {a : α} (hp : R.Alone p w a w') :
    ∀ {c : Crew ι A β W} {tr : List (ι × Answered A)}, Crew.Run R s tr c → c.world = w →
      c.prog i = p >>= f →
        ∃ tr' c', Crew.Run R s tr' c' ∧ c'.world = w' ∧ c'.prog i = f a ∧
          ∀ j, j ≠ i → c'.prog j = c.prog j := by
  induction hp with
  | done a w => exact fun {c tr} h hw hi => ⟨tr, c, h, hw, hi, fun _ _ => rfl⟩
  | ask hserve _ ih =>
    intro c tr h hw hi
    subst hw
    obtain ⟨tr', c', h', hw', hi', hothers⟩ :=
      ih (h.call hi hserve) rfl (Function.update_self ..)
    exact ⟨tr', c', h', hw', hi', fun j hj =>
      (hothers j hj).trans (Function.update_of_ne hj ..)⟩

/-! ## Programs one by one -/

/-- What the programs keep and count on: an invariant, an order in which the state only goes up,
    and for each of them what the others leave as it is. Changes that come from elsewhere keep
    all three. -/
structure Pact (ι : Type) (R : Rules A W) where
  inv : W → Prop
  le : W → W → Prop
  away : ι → W → W → Prop
  refl : ∀ w, le w w
  trans : ∀ {u v w}, le u v → le v w → le u w
  away_refl : ∀ i w, away i w w
  away_trans : ∀ {i u v w}, away i u v → away i v w → away i u w
  drift : ∀ {w w'}, inv w → R.drift w w' → inv w' ∧ le w w' ∧ ∀ i, away i w w'

variable {R : Rules A W}

/-- Whatever the others have done before each of its calls, program `i` keeps the pact, and when it
    is done `post` holds of its result. -/
def Upholds (P : Pact ι R) (i : ι) (post : α → W → Prop) : Prog A α → W → Prop
  | .done a, w => post a w
  | .ask c k, w => ∀ w₁, P.le w w₁ → P.away i w w₁ → P.inv w₁ → ∀ a w₂, R.serve c w₁ a w₂ →
      P.inv w₂ ∧ P.le w₁ w₂ ∧ (∀ j, j ≠ i → P.away j w₁ w₂) ∧ Upholds P i post (k a) w₂

namespace Upholds

variable {P : Pact ι R} {i : ι} {post : α → W → Prop}

theorem mono (hpost : ∀ a w w', post a w → P.le w w' → P.away i w w' → post a w')
    {p : Prog A α} {w w' : W} (h : Upholds P i post p w) (hle : P.le w w')
    (haway : P.away i w w') : Upholds P i post p w' := by
  cases p with
  | done a => exact hpost a w w' h hle haway
  | ask c k => exact fun w₁ h₁ h₂ => h w₁ (P.trans hle h₁) (P.away_trans haway h₂)

theorem imp {post' : α → W → Prop} (hpost : ∀ a w, post a w → post' a w) {p : Prog A α} :
    ∀ {w : W}, Upholds P i post p w → Upholds P i post' p w := by
  induction p with
  | done a => exact fun {w} h => hpost a w h
  | ask c k ih =>
    intro w h w₁ h₁ haway hinv a w₂ hserve
    obtain ⟨hinv₂, h₂, hothers, hk⟩ := h w₁ h₁ haway hinv a w₂ hserve
    exact ⟨hinv₂, h₂, hothers, ih a hk⟩

theorem bind {mid : α → W → Prop} {post : β → W → Prop} {f : α → Prog A β} {p : Prog A α} :
    ∀ {w : W}, Upholds P i mid p w →
      (∀ a w', P.le w w' → mid a w' → Upholds P i post (f a) w') →
        Upholds P i post (p >>= f) w := by
  induction p with
  | done a => exact fun {w} h hf => hf a w (P.refl w) h
  | ask c k ih =>
    intro w h hf w₁ h₁ haway hinv a w₂ hserve
    obtain ⟨hinv₂, h₂, hothers, hk⟩ := h w₁ h₁ haway hinv a w₂ hserve
    exact ⟨hinv₂, h₂, hothers, ih a hk fun b w' hle => hf b w' (P.trans (P.trans h₁ h₂) hle)⟩

end Upholds

/-- Program `i` upholds the pact from every state with `pre`, and `post` holds when it is done. -/
def Pact.Triple (P : Pact ι R) (i : ι) (pre : W → Prop) (p : Prog A α) (post : α → W → Prop) :
    Prop :=
  ∀ w, pre w → Upholds P i post p w

namespace Pact.Triple

variable {P : Pact ι R} {i : ι} {pre : W → Prop} {post : β → W → Prop}

theorem bind {mid : α → W → Prop} {p : Prog A α} {f : α → Prog A β} (hp : P.Triple i pre p mid)
    (hf : ∀ a, P.Triple i (mid a) (f a) post) : P.Triple i pre (p >>= f) post :=
  fun w hw => (hp w hw).bind fun a w' _ h => hf a w' h

theorem ask {c : C} {mid : A c → W → Prop} {k : A c → Prog A β}
    (hc : P.Triple i pre (Prog.call c) mid) (hk : ∀ a, P.Triple i (mid a) (k a) post) :
    P.Triple i pre (.ask c k) post :=
  hc.bind hk

end Pact.Triple

/-- Programs that uphold the pact one by one uphold it in every run, and the invariant holds all
    along. -/
theorem Crew.Run.upholds [DecidableEq ι] {P : Pact ι R} {post : ι → α → W → Prop}
    (hpost : ∀ i a w w', post i a w → P.le w w' → P.away i w w' → post i a w')
    {s t : Crew ι A α W} {tr : List (ι × Answered A)} (hinv : P.inv s.world)
    (hs : ∀ i, Upholds P i (post i) (s.prog i) s.world) (h : Crew.Run R s tr t) :
    P.inv t.world ∧ ∀ i, Upholds P i (post i) (t.prog i) t.world := by
  induction h with
  | start => exact ⟨hinv, hs⟩
  | @call tr t i c k a w _ hask hserve ih =>
    have hi := ih.2 i
    rw [hask] at hi
    obtain ⟨hinv', hle, hothers, hk⟩ := hi t.world (P.refl _) (P.away_refl i _) ih.1 a w hserve
    refine ⟨hinv', fun j => ?_⟩
    by_cases hj : j = i
    · subst hj
      simpa only [Function.update_self] using hk
    · simpa only [Function.update_of_ne hj] using (ih.2 j).mono (hpost j) hle (hothers j hj)
  | drift _ hdrift ih =>
    obtain ⟨hinv', hle, haway⟩ := P.drift ih.1 hdrift
    exact ⟨hinv', fun j => (ih.2 j).mono (hpost j) hle (haway j)⟩

/-- One program that upholds the pact does so while nobody breaks it: what the others do in the run
    keeps the invariant and leaves alone what it counts on. -/
theorem Crew.Run.upholds_of_others [DecidableEq ι] {P : Pact ι R} {i : ι} {post : α → W → Prop}
    (hpost : ∀ a w w', post a w → P.le w w' → P.away i w w' → post a w')
    {s t : Crew ι A α W} {tr : List (ι × Answered A)} (h : Crew.Run R s tr t)
    (hothers : ∀ e ∈ tr, e.1 ≠ i → ∀ w w', P.inv w → R.serve e.2.1 w e.2.2 w' →
      P.inv w' ∧ P.le w w' ∧ P.away i w w')
    (hinv : P.inv s.world) (hs : Upholds P i post (s.prog i) s.world) :
    P.inv t.world ∧ Upholds P i post (t.prog i) t.world := by
  induction h with
  | start => exact ⟨hinv, hs⟩
  | @call tr t j c k a w _ hask hserve ih =>
    have hbefore := ih fun e he => hothers e (List.mem_append_left _ he)
    by_cases hj : j = i
    · subst hj
      have hi := hbefore.2
      rw [hask] at hi
      obtain ⟨hinv', -, -, hk⟩ := hi t.world (P.refl _) (P.away_refl j _) hbefore.1 a w hserve
      exact ⟨hinv', by simpa only [Function.update_self] using hk⟩
    · obtain ⟨hinv', hle, haway⟩ := hothers (j, ⟨c, a⟩)
        (List.mem_append_right _ List.mem_cons_self) hj _ _ hbefore.1 hserve
      refine ⟨hinv', ?_⟩
      simpa only [Function.update_of_ne (Ne.symm hj)] using hbefore.2.mono hpost hle haway
  | drift _ hdrift ih =>
    have hbefore := ih hothers
    obtain ⟨hinv', hle, haway⟩ := P.drift hbefore.1 hdrift
    exact ⟨hinv', hbefore.2.mono hpost hle (haway i)⟩

/-! ## Summing over all programs -/

/-- A sum that is zero over the part of each name is zero over the whole. -/
theorem sum_eq_zero_of_fibers {γ M : Type} [DecidableEq ι] [AddCommMonoid M] (v : γ → M) :
    ∀ l : List (ι × γ), (∀ i, (((l.filter fun e => e.1 = i).map Prod.snd).map v).sum = 0) →
      ((l.map Prod.snd).map v).sum = 0 := by
  -- the part of the first name is split off, and what is left is shorter
  intro l
  induction hn : l.length using Nat.strongRecOn generalizing l with
  | _ n ih =>
    intro h
    cases l with
    | nil => rfl
    | cons e l =>
      have hsplit := (((List.filter_append_perm (fun e' => e'.1 = e.1) (e :: l)).map
        Prod.snd).map v).sum_eq
      rw [← hsplit, List.map_append, List.map_append, List.sum_append, h e.1, zero_add]
      refine ih _ ?_ _ rfl fun i => ?_
      · have hlt : ((e :: l).filter fun e' => !decide (e'.1 = e.1)).length < (e :: l).length := by
          rw [List.length_filter_lt_length_iff_exists]
          exact ⟨e, List.mem_cons_self, by simp⟩
        omega
      · rw [List.filter_filter]
        by_cases hi : i = e.1
        · have hnone : ((e :: l).filter fun e' => decide (e'.1 = i) && !decide (e'.1 = e.1)) = [] := by
            rw [List.filter_eq_nil_iff]
            intro e' _
            simp [hi]
          rw [hnone]
          rfl
        · have hsame : ((e :: l).filter fun e' => decide (e'.1 = i) && !decide (e'.1 = e.1)) =
              (e :: l).filter fun e' => e'.1 = i := by
            refine List.filter_congr fun e' _ => ?_
            by_cases he : e'.1 = i
            · simp [he, hi]
            · simp [he]
          rw [hsame]
          exact h i

end Doodle.Lib
