/-
  The directories deployments work in (`Deploy.lean`).

  `compile` and `install` change the working directory to that of the task, start commands and
  read files there by relative names, and change it back. The working directory belongs to the
  process, and any number of deployments run in it.

  * `workspaces`: a task works in its own directory as long as no two tasks are in theirs at the same
    time; without that, any task may be made to work in the directory of any other.
-/
import Doodle.Distributor.Deploy

namespace Doodle.Distributor.Deploy

open Doodle.Lib

/-! ## One task at a time -/

/-- The directory is changed only while no other task is in its own. -/
def Call.Waits : Call → World → Prop
  | .chdir t _, w => ∀ u, w.inside = some u → u = t
  | .chdirBack t _, w => ∀ u, w.inside = some u → u = t
  | _, _ => True

/-- The runs in which no two tasks are in their directories at the same time. -/
def oneByOne : Rules Ans World := ⟨fun c w a w' => c.Waits w ∧ serve c w a w', fun _ _ => False⟩

/-- Every task has worked in its own directory, and the one that is inside is in it. -/
structure Own (tasks : Nat → Task) (w : World) : Prop where
  cwd : ∀ t, w.inside = some t → w.cwd = (tasks t).path
  worked : ∀ x ∈ w.worked, x.2.2 = (tasks x.1).path

/-- The others do not make a task leave. -/
def Stays : Thread → World → World → Prop
  | .main t, w, w' => w.inside = some t → w'.inside = some t
  | .stream _, _, _ => True

variable {tasks : Nat → Task}

variable (tasks) in
def workPact : Pact Thread oneByOne where
  inv := Own tasks
  le _ _ := True
  away := Stays
  refl _ := trivial
  trans _ _ := trivial
  away_refl i _ := by
    cases i with
    | main t => exact id
    | stream s => exact trivial
  away_trans := fun {i _ _ _} h h' => by
    cases i with
    | main t => exact fun ht => h' (h ht)
    | stream s => exact trivial
  drift := fun _ h => h.elim

/-! ## Calls -/

/-- The calls that have nothing to do with the directory. -/
def Call.still : Call → Bool
  | .insertLog _ _ _ | .setLogID _ _ | .logStreams _ _ | .readLine _ _ | .writeLog _ _ _ _
  | .done _ => true
  | c => c.calm

theorem here_of_still {c : Call} (hc : c.still = true) {w w' : World} {a : Ans c}
    (h : serve c w a w') :
    w'.cwd = w.cwd ∧ w'.inside = w.inside ∧ w'.worked = w.worked := by
  cases c with
  | insertLog t pid s => rcases h with ⟨_, -, -, rfl⟩ | ⟨-, rfl⟩ <;> exact ⟨rfl, rfl, rfl⟩
  | setLogID t id => exact h ▸ ⟨rfl, rfl, rfl⟩
  | logStreams t n => exact h ▸ ⟨rfl, rfl, rfl⟩
  | readLine s line =>
    cases a with
    | line => exact h ▸ ⟨rfl, rfl, rfl⟩
    | part p => exact h.2.2 ▸ ⟨rfl, rfl, rfl⟩
    | fin => exact h ▸ ⟨rfl, rfl, rfl⟩
  | writeLog s id line state =>
    obtain ⟨_, rfl⟩ := h
    exact ⟨rfl, rfl, rfl⟩
  | done s => exact h ▸ ⟨rfl, rfl, rfl⟩
  | _ =>
    have hcalm := calm_of_serve (by exact hc) h
    exact ⟨hcalm.cwd, hcalm.inside, hcalm.worked⟩

theorem Own.of_still {w w' : World} (hw : Own tasks w) {c : Call} (hc : c.still = true) {a : Ans c}
    (h : serve c w a w') : Own tasks w' ∧ w'.inside = w.inside := by
  obtain ⟨hcwd, hinside, hworked⟩ := here_of_still hc h
  exact ⟨⟨fun t ht => hcwd.trans (hw.cwd t (hinside ▸ ht)), hworked ▸ hw.worked⟩, hinside⟩

/-- The task that is inside uses its directory. -/
theorem Own.work {w : World} (hw : Own tasks w) {t : Nat} (ht : w.inside = some t) (d : Deed) :
    Own tasks { w with worked := (t, d, w.cwd) :: w.worked } := by
  refine ⟨hw.cwd, fun x hx => ?_⟩
  rcases List.mem_cons.mp hx with rfl | hx
  · exact hw.cwd t ht
  · exact hw.worked x hx

theorem stays_of_inside {w w' : World} (h : w'.inside = w.inside) (j : Thread) : Stays j w w' := by
  cases j with
  | main t => exact fun ht => h.trans ht
  | stream s => exact trivial

/-! ## The programs one by one -/

section Programs

variable {α : Type} {t : Nat}

theorem upholds_of_still {i : Thread} {p : P α} (hp : Prog.All (fun c => c.still = true) p) :
    ∀ w, Upholds (workPact tasks) i (fun _ _ => True) p w := by
  induction p with
  | done a => exact fun _ => trivial
  | ask c k ih =>
    intro w w₁ _ _ hinv a w₂ hs
    obtain ⟨hown, hinside⟩ := hinv.of_still hp.1 hs.2
    exact ⟨hown, trivial, fun j _ => stays_of_inside hinside j, ih a (hp.2 a) w₂⟩

/-- Where the task is. -/
def Located (t : Nat) : Stage → World → Prop
  | .out _, _ | .gone, _ => True
  | .inn _, w | .ran _, w => w.inside = some t

/-- A call of a task that may be inside, which stays where it is. -/
theorem triple_within {c : Call} {st : Stage}
    (hc : ∀ {w a w'}, Own tasks w → Located t st w → serve c w a w' →
      Own tasks w' ∧ w'.inside = w.inside) :
    (workPact tasks).Triple (.main t) (Located t st) (Prog.call c) fun _ => Located t st := by
  intro w hw w₁ _ haway hinv a w₂ hs
  have hw₁ : Located t st w₁ := by
    cases st with
    | inn n | ran n => exact haway hw
    | out n | gone => exact trivial
  obtain ⟨hown, hinside⟩ := hc hinv hw₁ hs.2
  refine ⟨hown, trivial, fun j _ => stays_of_inside hinside j, ?_⟩
  cases st with
  | inn n | ran n => exact hinside.trans hw₁
  | out n | gone => exact trivial

/-- A task that was inside leaves, and the others notice nothing of it. -/
theorem triple_leave (st : Stage) (dir : String) (hst : ∀ w, Located t st w) {n : Stage}
    (hin : ∀ w, Located t n w → w.inside = some t) : (workPact tasks).Triple (.main t)
      (Located t n) (Prog.call (.chdirBack t dir)) fun _ => Located t st := by
  intro w hw w₁ _ haway hinv r w₂ hs
  have ht₁ : w₁.inside = some t := haway (hin w hw)
  have hother : ∀ j, j ≠ Thread.main t → Stays j w₁ w₂ := by
    intro j hj
    cases j with
    | main u =>
      intro hu
      exact absurd (congrArg Thread.main (Option.some.inj (hu.symm.trans ht₁))) hj
    | stream s => exact trivial
  rcases hs.2 with ⟨-, -, rfl⟩ | ⟨-, rfl⟩
  · exact ⟨⟨fun u hu => (nomatch hu), hinv.worked⟩, trivial, hother, hst _⟩
  · exact ⟨⟨fun u hu => (nomatch hu), hinv.worked⟩, trivial, hother, hst _⟩

/-- A task gets into its directory when no other is in its own. -/
theorem triple_enter (n : Nat) : (workPact tasks).Triple (.main t) (Located t (.out n))
    (Prog.call (.chdir t (tasks t).path)) fun err => Located t (.enter n err) := by
  intro w _ w₁ _ _ hinv err w₂ hs
  rcases hs with ⟨hwaits, ⟨rfl, -, rfl⟩ | ⟨hne, rfl⟩⟩
  · refine ⟨⟨fun u hu => ?_, hinv.worked⟩, trivial, fun j hj => ?_, rfl⟩
    · obtain rfl := Option.some.inj hu
      rfl
    · cases j with
      | main u => exact fun hu => absurd (congrArg Thread.main (hwaits u hu)) hj
      | stream s => exact trivial
  · obtain ⟨e, rfl⟩ := Option.ne_none_iff_exists'.mp hne
    exact ⟨hinv, trivial, fun j _ => stays_of_inside rfl j, trivial⟩

/-- The stages of a task, as far as the directory goes. -/
theorem workSteps (t : Nat) : Steps (workPact tasks) t (tasks t) (Located t) := by
  have hstill : ∀ st {c : Call}, c.still = true →
      (workPact tasks).Triple (.main t) (Located t st) (Prog.call c) fun _ => Located t st :=
    fun st _ hc => triple_within fun hw _ hs => hw.of_still hc hs
  refine
    { calm := fun st c hc => hstill st ?_
      start := fun n _ _ => triple_within fun {w a w'} hw ht hs => ?_
      upload := fun n _ _ => triple_within fun hw ht hs => hs ▸ ⟨hw.work ht _, rfl⟩
      enter := triple_enter
      back := fun n dir => triple_leave (.out n) dir (fun _ => trivial) fun _ h => h
      quit := fun n dir => triple_leave .gone dir (fun _ => trivial) fun _ h => h
      log := fun n pid => ?_
      wait := hstill (.ran 0) rfl
      skip := fun _ _ h => h
      next := fun _ _ h => h }
  · cases c with
    | insertLog | setLogID | logStreams | readLine | writeLog | done => cases hc
    | _ => exact hc
  · cases a with
    | error e =>
      obtain rfl : w' = w := hs
      exact ⟨hw, rfl⟩
    | ok pid => exact hs ▸ ⟨hw.work ht _, rfl⟩
  · refine (hstill (.inn n) rfl).ask fun s => (hstill (.inn n) rfl).ask fun r => ?_
    cases r with
    | none => exact fun _ h => h
    | some id => exact (hstill (.inn n) rfl).ask fun _ => (hstill (.inn n) rfl).ask fun _ _ h => h

theorem still_logStream (s : Stream) (lines : List String) :
    Prog.All (fun c : Call => c.still = true) (logStream s lines) := by
  refine ⟨rfl, fun _ => ?_⟩
  induction lines with
  | nil => exact ⟨rfl, fun _ => trivial⟩
  | cons line lines ih =>
    refine ⟨rfl, fun r => ?_⟩
    cases r with
    | line => exact ⟨rfl, fun _ => ⟨rfl, fun _ => ⟨rfl, fun _ => ih⟩⟩⟩
    | part p => exact ⟨rfl, fun _ => ⟨rfl, fun _ => ⟨rfl, fun _ => ⟨rfl, fun _ => trivial⟩⟩⟩⟩
    | fin => exact ⟨rfl, fun _ => trivial⟩

end Programs

theorem own_run {output : Stream → List String} {cwd : String} {tr : List (Thread × Answered Ans)}
    {c : Crew Thread Ans Unit World} (h : Crew.Run oneByOne (deploys tasks output cwd) tr c) :
    Own tasks c.world := by
  have hstart : (workPact tasks).inv (deploys tasks output cwd).world :=
    ⟨fun _ ht => (nomatch ht), fun _ hx => absurd hx List.not_mem_nil⟩
  have hone : ∀ i, Upholds (workPact tasks) i (fun _ _ => True)
      ((deploys tasks output cwd).prog i) (deploys tasks output cwd).world := by
    intro i
    cases i with
    | main t => exact (workSteps t).run _ trivial
    | stream s => exact upholds_of_still (still_logStream s _) _
  exact (h.upholds (fun _ _ _ _ _ _ _ => trivial) hstart hone).1

/-! ## Two tasks at the same time -/

section Cross

variable {output : Stream → List String} {cwd : String}

/-- `compile` from where the task is in its directory. -/
def compileInside (t : Nat) (tk : Task) (oldPath : String) : P (Option TaskErr) :=
  execSystemCmdWait t 0 (buildCmd tk) >>= fun err => match err with
    | some e => leave t oldPath .complieFailed (some (.annotate e (buildCmd tk)))
    | none => .ask (.wgWait t) fun _ => leave t oldPath .complieSuccess none

/-- A task that has not begun may go to its directory while the others stay where they are. -/
theorem goes_inside {s c : Crew Thread Ans Unit World} {tr : List (Thread × Answered Ans)}
    (h : Crew.Run rules s tr c) {t : Nat} {tk : Task} (hprog : c.prog (.main t) = run t tk)
    (hpath : tk.path ≠ "") : ∃ tr' c', Crew.Run rules s tr' c' ∧ c'.world.cwd = tk.path ∧
      (∀ j, j ≠ .main t → c'.prog j = c.prog j) ∧ ∃ k : Option TaskErr → P Unit,
        c'.prog (.main t) = compileInside t tk c.world.cwd >>= k := by
  have h₁ := h.call (a := ()) hprog rfl
  have h₂ := h₁.call (a := ()) (Function.update_self ..) (Or.inl rfl)
  have h₃ := h₂.call (a := c.world.cwd) (Function.update_self ..) ⟨Or.inl rfl, rfl⟩
  have h₄ := h₃.call (a := none) (Function.update_self ..) (Or.inl ⟨rfl, hpath, rfl⟩)
  refine ⟨_, _, h₄, rfl, fun j hj => ?_, _, Function.update_self ..⟩
  simp only [Function.update_of_ne hj]

/-- Both tasks begin, and the first one starts its build where the second one has gone. -/
theorem crosses {t u : Nat} (hne : t ≠ u) (ht : (tasks t).path ≠ "") (hu : (tasks u).path ≠ "") :
    ∃ tr c, Crew.Run rules (deploys tasks output cwd) tr c ∧
      (t, .start (buildCmd (tasks t)), (tasks u).path) ∈ c.world.worked := by
  obtain ⟨_, c₁, h₁, -, hothers₁, k₁, hprog₁⟩ :=
    goes_inside (Crew.Run.start (R := rules) (s := deploys tasks output cwd)) (t := t) rfl ht
  have hmain : Thread.main u ≠ .main t := fun he => hne (Thread.main.inj he).symm
  have hmain₁ : c₁.prog (.main u) = run u (tasks u) := hothers₁ _ hmain
  obtain ⟨_, c₂, h₂, hcwd₂, hothers₂, -⟩ := goes_inside h₁ hmain₁ hu
  have hprog₂ : c₂.prog (.main t) = compileInside t (tasks t) cwd >>= k₁ :=
    (hothers₂ _ hmain.symm).trans hprog₁
  have hstart : rules.serve (.start t 0 (buildCmd (tasks t))) c₂.world (.ok 0)
      { c₂.world with
        worked := (t, .start (buildCmd (tasks t)), c₂.world.cwd) :: c₂.world.worked } := rfl
  refine ⟨_, _, h₂.call hprog₂ hstart, ?_⟩
  rw [← hcwd₂]
  exact List.mem_cons_self

end Cross

/-- Where the tasks work. -/
structure Workspaces (tasks : Nat → Task) (output : Stream → List String) (cwd : String) : Prop where
  own : ∀ tr c, Crew.Run oneByOne (deploys tasks output cwd) tr c →
    ∀ x ∈ c.world.worked, x.2.2 = (tasks x.1).path
  crossed : ∀ t u, t ≠ u → (tasks t).path ≠ "" → (tasks u).path ≠ "" → ∃ tr c,
    Crew.Run rules (deploys tasks output cwd) tr c ∧
      (t, .start (buildCmd (tasks t)), (tasks u).path) ∈ c.world.worked

/-- As long as the tasks are in their directories one by one, every command is started and every
    file is read in the directory of its own task; and any task may be made to start its build in
    the directory of any other one that runs at the same time. -/
theorem workspaces (tasks : Nat → Task) (output : Stream → List String) (cwd : String) :
    Workspaces tasks output cwd where
  own _ _ h := (own_run h).worked
  crossed _ _ := crosses

end Doodle.Distributor.Deploy
