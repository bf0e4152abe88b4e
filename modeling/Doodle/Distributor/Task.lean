/-
  `compile` and `install` of `distributor/task.go`, and `run` of `distributor/distributor.go`: a
  deployment and the state it records.

  Both functions end with a deferred closure that reads the variable `err` of the function and
  records success or failure. A body is modelled with two results: what it returns, and what `err`
  holds when it does. A command or an upload whose error is declared by an inner `:=` leaves the
  outer one nil.

  The steps (`Step`) are performed at most once each, so the pattern of their errors is a function
  of the step. The errors of `Getwd` and of the `Chdir` back are dropped in the source. Updates of
  the state reach the database.

  * `run_recorded`: the state after a run, by the first step that fails.
  * `truthful_iff`: the state tells the truth exactly when no step fails after the `Chdir` of
    `install`, or an earlier one does.
-/
import Doodle.Go.Result
import Doodle.Go.Strings
import Doodle.Distributor.Watcher

namespace Doodle.Distributor

open Doodle.Go

/-! ## The model -/

/-- `stateCompileBegin` and so on, from 1. -/
inductive TaskState where
  | compileBegin | complieSuccess | complieFailed | installBegin | installSuccess | installFailed
  deriving DecidableEq, Repr

/-- `errors.Trace` and `errors.Annotatef` of an error. -/
inductive TaskErr where
  | trace (cause : String)
  | annotate (cause format : String)
  deriving DecidableEq, Repr

/-- What a deployment does and may fail at; a node is known by its position in the cluster. -/
inductive Step where
  | chdir | build
  | installChdir | tar
  | connect (node : Nat) | uploadScript (node : Nat) | uploadTar (node : Nat) | remote (node : Nat)
  deriving DecidableEq, Repr

/-- The error of each step, if it fails. -/
abbrev Failing := Step → Option String

/-- `project`; of its cluster the `Server` of each node. -/
structure Project where
  source : String
  name : String
  nodes : List String

/-- `task`, with the column `state` of its row in `distributor`. `key` is what `project.key`
    returns, `hosts` is `config.Distributor.ETCD.Hosts`. -/
structure Task where
  path : String
  project : Project
  key : String
  hosts : String
  state : Option TaskState
  recorded : Option TaskState

def updateState (t : Task) (state : TaskState) : Task :=
  { t with state := some state, recorded := some state }

/-- The deferred closure: `err` is the variable it captured. -/
def finish (failed success : TaskState) (err : Option String) (t : Task) : Task :=
  match err with
  | some _ => updateState t failed
  | none => updateState t success

section Body

variable (x : Failing) (ws : Services) (t : Task)

def buildCmd : String :=
  "./build.sh " ++ t.project.source ++ " " ++ t.key ++ " " ++ t.project.name

def compileBody : Option TaskErr × Option String :=
  match x .chdir with
  | some e => (some (.annotate e t.path), some e)
  | none =>
    match x .build with
    | some e => (some (.annotate e (buildCmd t)), some e)
    | none => (none, none)

def compile : Option TaskErr × Task :=
  let (res, err) := compileBody x t
  (res, finish .complieFailed .complieSuccess err (updateState t .compileBegin))

def tarFile : String := t.project.name ++ ".tar.gz"

def tarCmd : String := "tar -C bin -czf " ++ tarFile t ++ " " ++ t.project.name

def installCmd (key server : String) : String :=
  "./install.sh " ++ t.project.name ++ " " ++ toString (get ws key server).pid ++ " " ++ t.hosts

/-- One round of the loop of `install`. -/
def installNode (key : String) (i : Nat) (server : String) : Option TaskErr :=
  match x (.connect i) with
  | some e => some (.trace e)
  | none =>
    match x (.uploadScript i) with
    | some e => some (.annotate e "install.sh")
    | none =>
      match x (.uploadTar i) with
      | some e => some (.trace e)
      | none =>
        match x (.remote i) with
        | some e => some (.annotate e (installCmd ws t key server))
        | none => none

/-- The loop of `install`, from node `i` on. -/
def installNodes (key : String) : Nat → List String → Option TaskErr
  | _, [] => none
  | i, server :: servers =>
    match installNode x ws t key i server with
    | some e => some e
    | none => installNodes key (i + 1) servers

/-- Only the `Chdir` assigns the variable that the closure reads. `Source[7:]` panics on a shorter
    source. -/
def installBody : Res TaskErr Unit × Option String :=
  match x .installChdir with
  | some e => (.err (.annotate e t.path), some e)
  | none =>
    match x .tar with
    | some e => (.err (.annotate e (tarCmd t)), none)
    | none =>
      if t.project.source.utf8ByteSize < 7 then (.panic "slice bounds out of range", none)
      else
        match installNodes x ws t (sliceFrom t.project.source 7) 0 t.project.nodes with
        | some e => (.err e, none)
        | none => (.ok (), none)

/-- A panic runs the deferred closure too. -/
def install : Res TaskErr Unit × Task :=
  let (res, err) := installBody x ws t
  (res, finish .installFailed .installSuccess err (updateState t .installBegin))

/-- `distributor.run` -/
def run : Task :=
  match compile x t with
  | (some _, t) => t
  | (none, t) => (install x ws t).2

end Body

/-! ## Which step fails -/

/-- The steps of one node succeed. -/
def NodeSucceeds (x : Failing) (i : Nat) : Prop :=
  x (.connect i) = none ∧ x (.uploadScript i) = none ∧ x (.uploadTar i) = none ∧
    x (.remote i) = none

/-- The steps of `install` after its `Chdir` succeed: the archive, the name of the project, and
    those of every node. -/
structure Installs (x : Failing) (p : Project) : Prop where
  tar : x .tar = none
  source : 7 ≤ p.source.utf8ByteSize
  nodes : ∀ i < p.nodes.length, NodeSucceeds x i

/-- Every step succeeds. -/
structure Succeeds (x : Failing) (p : Project) : Prop where
  chdir : x .chdir = none
  build : x .build = none
  installChdir : x .installChdir = none
  installs : Installs x p

section Steps

variable {x : Failing} {ws : Services} {t : Task}

theorem installNode_eq_none (key : String) (i : Nat) (server : String) :
    installNode x ws t key i server = none ↔ NodeSucceeds x i := by
  unfold installNode NodeSucceeds
  cases x (.connect i) with
  | some e => simp
  | none =>
    cases x (.uploadScript i) with
    | some e => simp
    | none =>
      cases x (.uploadTar i) with
      | some e => simp
      | none => cases x (.remote i) <;> simp

/-- The loop ends without an error when every node from `i` on succeeds. -/
theorem installNodes_eq_none (key : String) (servers : List String) :
    ∀ i, installNodes x ws t key i servers = none ↔
      ∀ j < servers.length, NodeSucceeds x (i + j) := by
  induction servers with
  | nil =>
    intro i
    simp [installNodes]
  | cons server servers ih =>
    intro i
    have hsplit : (∀ j < (server :: servers).length, NodeSucceeds x (i + j)) ↔
        NodeSucceeds x i ∧ ∀ j < servers.length, NodeSucceeds x (i + 1 + j) := by
      constructor
      · intro h
        refine ⟨h 0 (by simp), fun j hj => ?_⟩
        have hnext := h (j + 1) (by simpa using hj)
        rwa [show i + (j + 1) = i + 1 + j by omega] at hnext
      · intro h j hj
        cases j with
        | zero => exact h.1
        | succ j =>
          have hnext := h.2 j (by simpa using hj)
          rwa [show i + 1 + j = i + (j + 1) by omega] at hnext
    have hiff : installNode x ws t key i server = none ↔ NodeSucceeds x i :=
      installNode_eq_none key i server
    rw [hsplit, ← ih (i + 1)]
    cases hnode : installNode x ws t key i server with
    | some e =>
      have hfails : ¬ NodeSucceeds x i := by
        rw [← hiff, hnode]
        simp
      simp [installNodes, hnode, hfails]
    | none =>
      have hsucceeds := hiff.mp hnode
      simp [installNodes, hnode, hsucceeds]

theorem compile_fst_eq_none : (compile x t).1 = none ↔ x .chdir = none ∧ x .build = none := by
  unfold compile compileBody
  cases x .chdir with
  | some e => simp
  | none => cases x .build <;> simp

theorem compile_recorded : (compile x t).2.recorded =
    some (if (compile x t).1 = none then .complieSuccess else .complieFailed) := by
  unfold compile compileBody
  cases x .chdir with
  | some e => rfl
  | none => cases x .build <;> rfl

/-- `compile` only changes the state. -/
theorem compile_project : (compile x t).2.project = t.project := by
  unfold compile finish
  dsimp only
  split <;> rfl

theorem install_of_chdir {e : String} (h : x .installChdir = some e) :
    (install x ws t).1 = .err (.annotate e t.path) ∧
      (install x ws t).2.recorded = some .installFailed := by
  unfold install installBody
  rw [h]
  exact ⟨rfl, rfl⟩

theorem install_of_installs (h : x .installChdir = none) (hinst : Installs x t.project) :
    (install x ws t).1 = .ok () := by
  have hnodes : installNodes x ws t (sliceFrom t.project.source 7) 0 t.project.nodes = none := by
    rw [installNodes_eq_none]
    intro j hj
    rw [Nat.zero_add]
    exact hinst.nodes j hj
  unfold install installBody
  dsimp only
  rw [h, hinst.tar, if_neg (by have := hinst.source; omega), hnodes]

/-- After the `Chdir`, whatever the body returns, success is recorded. -/
theorem install_recorded (h : x .installChdir = none) :
    (install x ws t).2.recorded = some .installSuccess := by
  have hnil : (installBody x ws t).2 = none := by
    unfold installBody
    rw [h]
    dsimp only
    cases x .tar with
    | some e => rfl
    | none =>
      dsimp only
      split
      · rfl
      · split <;> rfl
  unfold install
  dsimp only
  rw [hnil]
  rfl

end Steps

/-! ## The recorded state -/

section Recorded

variable (x : Failing) (ws : Services) (t : Task)

/-- The state after a run. -/
theorem run_recorded : (run x ws t).recorded = some
    (if x .chdir = none ∧ x .build = none then
      if x .installChdir = none then .installSuccess else .installFailed
    else .complieFailed) := by
  have hrec : (compile x t).2.recorded = _ := compile_recorded
  by_cases hc : x .chdir = none ∧ x .build = none
  · have hnone := compile_fst_eq_none (t := t).mpr hc
    have hrun : run x ws t = (install x ws (compile x t).2).2 := by
      unfold run
      rcases hcomp : compile x t with ⟨_ | e, t'⟩
      · rfl
      · rw [hcomp] at hnone
        cases hnone
    rw [hrun, if_pos hc]
    by_cases hi : x .installChdir = none
    · rw [if_pos hi, install_recorded hi]
    · obtain ⟨e, he⟩ := Option.ne_none_iff_exists'.mp hi
      rw [if_neg hi, (install_of_chdir he).2]
  · have hsome := mt (compile_fst_eq_none (t := t)).mp hc
    have hrun : run x ws t = (compile x t).2 := by
      unfold run
      rcases hcomp : compile x t with ⟨_ | e, t'⟩
      · rw [hcomp] at hsome
        exact absurd rfl hsome
      · rfl
    rw [hrun, hrec, if_neg hsome, if_neg hc]

/-- The state after a run says how it went. -/
structure Truthful : Prop where
  success : (run x ws t).recorded = some .installSuccess ↔ Succeeds x t.project
  complieFailed : (run x ws t).recorded = some .complieFailed ↔ (compile x t).1 ≠ none
  installFailed : (run x ws t).recorded = some .installFailed ↔
    (compile x t).1 = none ∧ ∃ e, (install x ws (compile x t).2).1 = .err e

/-- The state tells the truth exactly when `compile` fails, or the `Chdir` of `install` does, or
    nothing fails after it. -/
theorem truthful_iff : Truthful x ws t ↔
    x .chdir ≠ none ∨ x .build ≠ none ∨ x .installChdir ≠ none ∨ Installs x t.project := by
  constructor
  · intro h
    by_contra hno
    simp only [not_or, not_not] at hno
    obtain ⟨hc, hb, hi, hinst⟩ := hno
    have hrec := run_recorded x ws t
    rw [if_pos ⟨hc, hb⟩, if_pos hi] at hrec
    exact hinst (h.success.mp hrec).installs
  · intro h
    have hinst : x .chdir = none ∧ x .build = none → x .installChdir = none →
        Installs x t.project := by
      intro hc hi
      rcases h with h | h | h | h
      · exact absurd hc.1 h
      · exact absurd hc.2 h
      · exact absurd hi h
      · exact h
    by_cases hc : x .chdir = none ∧ x .build = none
    · have hnone := compile_fst_eq_none (t := t).mpr hc
      by_cases hi : x .installChdir = none
      · have hok : (install x ws (compile x t).2).1 = .ok () := by
          refine install_of_installs hi ?_
          rw [compile_project]
          exact hinst hc hi
        have hall : Succeeds x t.project := ⟨hc.1, hc.2, hi, hinst hc hi⟩
        constructor <;> simp [run_recorded, hc, hi, hnone, hok, hall]
      · obtain ⟨e, he⟩ := Option.ne_none_iff_exists'.mp hi
        have hnot : ¬ Succeeds x t.project := fun hs => hi hs.installChdir
        constructor <;> simp [run_recorded, hc, hi, hnone, (install_of_chdir he).1, hnot]
    · have hsome := mt (compile_fst_eq_none (t := t)).mp hc
      have hnot : ¬ Succeeds x t.project := fun hs => hc ⟨hs.chdir, hs.build⟩
      constructor <;> simp [run_recorded, hc, hsome, hnot]

end Recorded

def faasTask : Task where
  path := "/tmp/1"
  project := ⟨"http://git.jd.com/dbs/faas", "faas", ["10.0.0.1"]⟩
  key := "key"
  hosts := "10.0.0.2:2379"
  state := none
  recorded := none

/-- No archive is packed, and the deployment is recorded as a success. -/
theorem tar_failure_recorded_success :
    ¬ Truthful (fun s => if s = .tar then some "exit status 2" else none) Services.empty
      faasTask := by
  intro h
  have hrec : (run (fun s => if s = .tar then some "exit status 2" else none) Services.empty
      faasTask).recorded = some .installSuccess := by decide
  exact absurd (h.success.mp hrec).installs.tar (by decide)

end Doodle.Distributor
