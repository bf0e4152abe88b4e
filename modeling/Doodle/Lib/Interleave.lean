/-
  Two programs on one server, their calls interleaved in any way.

  A `Sections` describes programs that first only read, then make an entering call and from there on
  inner calls, to the end. A step is careful when an entering call is not made while the other
  program has inner calls to make. In a careful run each section has the server for itself, so what
  a program leaves when it runs alone is what it leaves here: `left_of_careful`.
-/
import Doodle.Lib.Prog
import Mathlib.Data.Bool.Basic
import Mathlib.Logic.Function.Basic

namespace Doodle.Lib

namespace Prog

variable {C : Type} {A : C → Type} {α β : Type}

/-- Every call of the program, whatever the answers, satisfies `P`. -/
def All (P : C → Prop) : Prog A α → Prop
  | done _ => True
  | ask c k => P c ∧ ∀ a, All P (k a)

theorem all_bind {P : C → Prop} {p : Prog A α} {f : α → Prog A β} (hp : All P p)
    (hf : ∀ a, All P (f a)) : All P (p >>= f) := by
  induction p with
  | done a => exact hf a
  | ask c k ih => exact ⟨hp.1, fun a => ih a (hp.2 a)⟩

end Prog

variable {C : Type} {A : C → Type} {α W : Type}

/-- Two programs and the state of the server they call. -/
structure Pool (A : C → Type) (α W : Type) where
  prog : Bool → Prog A α
  world : W

namespace Pool

/-- One call of program `i`; `none` when it is done. -/
def step (serve : (c : C) → W → A c × W) (s : Pool A α W) (i : Bool) : Option (Pool A α W) :=
  match s.prog i with
  | .done _ => none
  | .ask c k => some ⟨Function.update s.prog i (k (serve c s.world).1), (serve c s.world).2⟩

/-- The calls of a schedule, when all are possible. -/
def run (serve : (c : C) → W → A c × W) (s : Pool A α W) : List Bool → Option (Pool A α W)
  | [] => some s
  | i :: is => (step serve s i).bind fun s' => run serve s' is

/-- What a step does: program `i` makes its next call, the other one stays. -/
theorem step_cases {serve : (c : C) → W → A c × W} {s s' : Pool A α W} {i : Bool}
    (h : step serve s i = some s') : ∃ c k, s.prog i = .ask c k ∧
      s'.world = (serve c s.world).2 ∧ s'.prog i = k (serve c s.world).1 ∧
        ∀ j, j ≠ i → s'.prog j = s.prog j := by
  cases hp : s.prog i with
  | done a =>
    simp only [step, hp] at h
    cases h
  | ask c k =>
    simp only [step, hp, Option.some.injEq] at h
    subst h
    exact ⟨c, k, rfl, rfl, Function.update_self .., fun j hj => Function.update_of_ne hj ..⟩

theorem run_append (serve : (c : C) → W → A c × W) (is js : List Bool) :
    ∀ s : Pool A α W, run serve s (is ++ js) = (run serve s is).bind fun s' => run serve s' js := by
  induction is with
  | nil => intro s; rfl
  | cons i is ih =>
    intro s
    simp only [List.cons_append, run, ih, Option.bind_assoc]

/-- Some schedule leads from `s` to `s'`. -/
def Reaches (serve : (c : C) → W → A c × W) (s s' : Pool A α W) : Prop :=
  ∃ is, run serve s is = some s'

theorem Reaches.trans {serve : (c : C) → W → A c × W} {s₁ s₂ s₃ : Pool A α W}
    (h : Reaches serve s₁ s₂) (h' : Reaches serve s₂ s₃) : Reaches serve s₁ s₃ := by
  obtain ⟨is, his⟩ := h
  obtain ⟨js, hjs⟩ := h'
  exact ⟨is ++ js, by rw [run_append, his, Option.bind_some, hjs]⟩

/-- Program `i` may run its first part to the end while the other one waits. -/
theorem exists_run_part {β : Type} (serve : (c : C) → W → A c × W) (i : Bool) (p : Prog A β)
    (f : β → Prog A α) : ∀ s : Pool A α W, s.prog i = p >>= f →
      ∃ n, run serve s (List.replicate n i) =
        some ⟨Function.update s.prog i (f (p.run serve s.world).1), (p.run serve s.world).2⟩ := by
  induction p with
  | done a =>
    rintro ⟨prog, w⟩ (hp : prog i = f a)
    refine ⟨0, ?_⟩
    simp only [List.replicate_zero, run, Prog.run_done, ← hp, Function.update_eq_self]
  | ask c k ih =>
    intro s hp
    have hstep : step serve s i = some
        ⟨Function.update s.prog i (k (serve c s.world).1 >>= f), (serve c s.world).2⟩ := by
      simp only [step, hp, Prog.ask_bind]
    obtain ⟨n, hn⟩ := ih (serve c s.world).1
      ⟨Function.update s.prog i (k (serve c s.world).1 >>= f), (serve c s.world).2⟩
      (Function.update_self ..)
    refine ⟨n + 1, ?_⟩
    rw [List.replicate_succ, run, hstep, Option.bind_some, hn, Function.update_idem]
    rfl

/-- Program `i` may run to its end while the other one waits. -/
theorem exists_run_alone (serve : (c : C) → W → A c × W) (i : Bool) (s : Pool A α W) :
    ∃ n, run serve s (List.replicate n i) =
      some ⟨Function.update s.prog i (.done ((s.prog i).run serve s.world).1),
        ((s.prog i).run serve s.world).2⟩ :=
  exists_run_part serve i (s.prog i) .done s (Prog.bind_done _).symm

end Pool

/-- Programs with a section: `Out i` before it, `Left i` what it ends with and leaves when it runs
    alone from an `Idle` state. `Known` is what the reads before the section rest on. -/
structure Sections (serve : (c : C) → W → A c × W) (α : Type) where
  enter : C → Bool
  inner : C → Bool
  Known : W → Prop
  Idle : W → Prop
  Out : Bool → Prog A α → Prop
  Left : Bool → α × W → Prop
  known_of_idle : ∀ w, Idle w → Known w
  known_serve : ∀ c w, Known w → Known (serve c w).2
  out_cases : ∀ i p, Out i p → ∃ c k, p = .ask c k ∧
    ((∀ w, Known w → (serve c w).2 = w ∧ Out i (k (serve c w).1)) ∨
      (enter c = true ∧ ∀ w, Idle w → Prog.All (fun c => inner c = true) (k (serve c w).1) ∧
        Idle (Prog.run serve (.ask c k) w).2 ∧ Left i (Prog.run serve (.ask c k) w)))

namespace Sections

variable {serve : (c : C) → W → A c × W}

/-- An entering call is not made while the other program has inner calls to make. -/
def careful (S : Sections serve α) (s : Pool A α W) (i : Bool) : Bool :=
  match s.prog i, s.prog (!i) with
  | .ask c _, .ask c' _ => !(S.enter c && S.inner c')
  | _, _ => true

/-- Every step of the schedule is careful. -/
def carefulRun (S : Sections serve α) (s : Pool A α W) : List Bool → Bool
  | [] => true
  | i :: is => S.careful s i &&
    match Pool.step serve s i with
    | some s' => S.carefulRun s' is
    | none => true

theorem carefulRun_append (S : Sections serve α) (is js : List Bool) : ∀ s s' : Pool A α W,
    Pool.run serve s is = some s' → S.carefulRun s is = true → S.carefulRun s' js = true →
      S.carefulRun s (is ++ js) = true := by
  induction is with
  | nil =>
    rintro s s' ⟨⟩ - hjs
    exact hjs
  | cons i is ih =>
    intro s s' hrun his hjs
    obtain ⟨s₁, hstep, hrest⟩ := Option.bind_eq_some_iff.mp hrun
    simp only [List.cons_append, carefulRun, hstep, Bool.and_eq_true] at his ⊢
    exact ⟨his.1, ih s₁ s' hrest his.2 hjs⟩

/-- Steps of one program are careful while the other one's next call is not an inner one. -/
theorem carefulRun_replicate (S : Sections serve α) (i : Bool) (n : Nat) : ∀ s : Pool A α W,
    (∀ c k, s.prog (!i) = .ask c k → S.inner c = false) →
      S.carefulRun s (List.replicate n i) = true := by
  induction n with
  | zero => intro s _; rfl
  | succ n ih =>
    intro s h
    rw [List.replicate_succ, carefulRun, Bool.and_eq_true]
    constructor
    · unfold careful
      split
      · rename_i c' k' _ hother
        rw [h _ _ hother, Bool.and_false]
        rfl
      · rfl
    · split
      · rename_i s' hstep
        obtain ⟨c, k, -, -, -, hother⟩ := Pool.step_cases hstep
        exact ih s' fun c' k' hp => h c' k' (hother _ (Bool.self_ne_not i).symm ▸ hp)
      · rfl

/-- Program `i` is in its section or done with it: run alone from here it leaves what it should. -/
def In (S : Sections serve α) (i : Bool) (p : Prog A α) (w : W) : Prop :=
  Prog.All (fun c => S.inner c = true) p ∧ S.Idle (Prog.run serve p w).2 ∧
    S.Left i (Prog.run serve p w)

/-- Neither program has entered, or one has and the other is before its section or done. -/
def Inv (S : Sections serve α) (s : Pool A α W) : Prop :=
  S.Known s.world ∧
    ((S.Idle s.world ∧ ∀ i, S.Out i (s.prog i)) ∨
      ∃ i, S.In i (s.prog i) s.world ∧
        (S.Out (!i) (s.prog !i) ∨ ∃ a, s.prog (!i) = .done a))

/-- A step of the program in its section goes on with the section. -/
theorem in_next (S : Sections serve α) {i : Bool} {c : C} {k : A c → Prog A α} {w : W}
    (h : S.In i (.ask c k) w) : S.In i (k (serve c w).1) (serve c w).2 :=
  ⟨h.1.2 _, h.2⟩

/-- A call before the section is a read, or it enters. -/
theorem out_next (S : Sections serve α) {i : Bool} {c : C} {k : A c → Prog A α} {w : W}
    (hknown : S.Known w) (h : S.Out i (.ask c k)) :
    ((serve c w).2 = w ∧ S.Out i (k (serve c w).1)) ∨
      (S.enter c = true ∧ (S.Idle w → S.In i (k (serve c w).1) (serve c w).2)) := by
  obtain ⟨c₀, k₀, heq, hread | ⟨hc, henter⟩⟩ := S.out_cases i _ h
  · cases heq
    exact Or.inl (hread w hknown)
  · cases heq
    exact Or.inr ⟨hc, henter w⟩

theorem inv_step (S : Sections serve α) {s s' : Pool A α W} {i : Bool} (h : S.Inv s)
    (hcare : S.careful s i = true) (hstep : Pool.step serve s i = some s') : S.Inv s' := by
  obtain ⟨hknown, hcases⟩ := h
  obtain ⟨c, k, hp, hw, hself, hother⟩ := Pool.step_cases hstep
  refine ⟨hw ▸ S.known_serve c s.world hknown, ?_⟩
  rcases hcases with ⟨hidle, hboth⟩ | ⟨j, hin, hj⟩
  · rcases S.out_next hknown (hp ▸ hboth i) with ⟨hread, ho⟩ | ⟨-, henter⟩
    · refine Or.inl ⟨by rwa [hw, hread], fun j => ?_⟩
      by_cases hj : j = i
      · subst hj
        rwa [hself]
      · rw [hother j hj]
        exact hboth j
    · refine Or.inr ⟨i, ?_, Or.inl ?_⟩
      · rw [hself, hw]
        exact henter hidle
      · rw [hother _ (Bool.self_ne_not i).symm]
        exact hboth (!i)
  · by_cases hji : j = i
    · -- the program in the section goes on
      subst hji
      refine Or.inr ⟨j, ?_, ?_⟩
      · rw [hself, hw]
        exact S.in_next (hp ▸ hin)
      · rwa [hother _ (Bool.self_ne_not j).symm]
    · obtain rfl : i = !j := Bool.eq_not.mpr (Ne.symm hji)
      rcases hj with ho | ⟨a, ha⟩
      · rcases S.out_next hknown (hp ▸ ho) with ⟨hread, ho'⟩ | ⟨hc, henter⟩
        · refine Or.inr ⟨j, ?_, Or.inl ?_⟩
          · rwa [hother j hji, hw, hread]
          · rwa [hself]
        · -- it enters, so the other one has no inner call left: it is done
          have hdone : ∃ a, s.prog j = .done a := by
            cases hpj : s.prog j with
            | done a => exact ⟨a, rfl⟩
            | ask c' k' =>
              rw [hpj] at hin
              have hinner : S.inner c' = true := hin.1.1
              simp [careful, hp, hpj, hc, hinner] at hcare
          obtain ⟨a, ha⟩ := hdone
          have hidle : S.Idle s.world := by
            rw [ha] at hin
            exact hin.2.1
          refine Or.inr ⟨!j, ?_, Or.inr ⟨a, ?_⟩⟩
          · rw [hself, hw]
            exact henter hidle
          · rw [Bool.not_not, hother j hji, ha]
      · rw [ha] at hp
        cases hp

theorem inv_run (S : Sections serve α) {s s' : Pool A α W} {is : List Bool} (h : S.Inv s)
    (hcare : S.carefulRun s is = true) (hrun : Pool.run serve s is = some s') : S.Inv s' := by
  induction is generalizing s with
  | nil => exact Option.some.inj hrun ▸ h
  | cons i is ih =>
    obtain ⟨s₁, hstep, hrest⟩ := Option.bind_eq_some_iff.mp hrun
    rw [carefulRun, hstep, Bool.and_eq_true] at hcare
    exact ih (S.inv_step h hcare.1 hstep) hcare.2 hrest

/-- When both programs are done after a careful run, the server is as one of them leaves it. -/
theorem left_of_careful (S : Sections serve α) {s s' : Pool A α W} {is : List Bool}
    (hidle : S.Idle s.world) (hout : ∀ i, S.Out i (s.prog i)) (hcare : S.carefulRun s is = true)
    (hrun : Pool.run serve s is = some s') (hdone : ∀ i, ∃ a, s'.prog i = .done a) :
    ∃ i a, s'.prog i = .done a ∧ S.Left i (a, s'.world) := by
  have hinv : S.Inv s := ⟨S.known_of_idle _ hidle, Or.inl ⟨hidle, hout⟩⟩
  obtain ⟨-, ⟨-, hboth⟩ | ⟨i, hin, -⟩⟩ := S.inv_run hinv hcare hrun
  · obtain ⟨c, k, hask, -⟩ := S.out_cases true _ (hboth true)
    obtain ⟨a, ha⟩ := hdone true
    rw [ha] at hask
    cases hask
  · obtain ⟨a, ha⟩ := hdone i
    rw [ha] at hin
    exact ⟨i, a, ha, hin.2.2⟩

end Sections

end Doodle.Lib
