/-
  Deployments at the same time: `run` of `distributor/distributor.go` with `compile`, `install`,
  `writeLogs` and `logStream` of `distributor/task.go` as programs, one for each task and one for
  each stream of a command.

  A task and the streams of its commands share its fields `state` and `logID` and its wait group,
  without a lock. All tasks share the working directory of the process and the table of logs.
  Commands are numbered within their task: the build is 0, the archive 1, node `i` is `i + 2`.

  `output s` is what `ReadLine` would give for a stream that is read to its end. `Wait` closes the
  pipes of a command that has ended, so a read may fail before that, and the last text read before
  it may be the beginning of a line. An update of a log row that fails is not tried again; the
  database may have carried it out nevertheless. A text too long for its column is such a failure.
  Directories are absolute. `WaitGroup` is the list of its streams. A panic of `install` ends the
  process; here only the task ends.

  `Book.home` (the row a command was started with), `Book.got` (what `ReadLine` gave for a stream),
  `Book.tried`, `Book.cut` and `Book.ended` (what became of the streams), `World.inside` (who has
  changed the directory) and `World.worked` (what was done in which directory, and by whom) are
  there for the theorems only.

  * `Steps.run`: from a rule for each call of a task, stage by stage, one for the whole of `run`.
-/
import Doodle.Distributor.Task
import Doodle.Lib.Threads

namespace Doodle.Distributor.Deploy

open Doodle.Go Doodle.Lib

/-! ## Streams and rows -/

/-- The output of a command, or its errors. -/
structure Stream where
  task : Nat
  cmd : Nat
  err : Bool
  deriving DecidableEq, Repr

/-- `run` of a task, and `logStream` of a stream. -/
inductive Thread where
  | main (t : Nat)
  | stream (s : Stream)
  deriving DecidableEq

/-- A row of `distributor_logs`. -/
structure Row where
  id : Int
  distributorID : Nat
  state : Option TaskState
  pid : Int
  info : String

/-- One `sqlWriteLogs`, and whether it was carried out. -/
structure Write where
  stream : Stream
  row : Int
  line : String
  stored : Bool

/-- The logs, and what the tasks and their streams share. -/
structure Book where
  logID : Nat → Int
  live : List Stream
  logs : List Row
  home : Nat → Nat → Option Int
  got : Stream → List String
  tried : List Write
  cut : List Stream
  ended : List Stream

namespace Book

/-- An id `Insert` may give: new, and above those the task got before. -/
structure New (b : Book) (t : Nat) (id : Int) : Prop where
  pos : 0 < id
  new : ∀ r ∈ b.logs, r.id ≠ id
  above : ∀ r ∈ b.logs, r.distributorID = t → r.id < id

def insert (b : Book) (r : Row) : Book := { b with logs := b.logs ++ [r] }

def setLogID (b : Book) (t : Nat) (id : Int) : Book :=
  { b with logID := Function.update b.logID t id }

/-- `wg.Add(2)` and the two goroutines. -/
def logStreams (b : Book) (t n : Nat) : Book :=
  { b with
    live := ⟨t, n, false⟩ :: ⟨t, n, true⟩ :: b.live
    home := Function.update b.home t (Function.update (b.home t) n (some (b.logID t))) }

/-- `update distributor_logs set info = concat(info, ?) , state = ? where id=?` -/
def write (b : Book) (x : Write) (state : Option TaskState) : Book :=
  { b with
    logs := if x.stored then b.logs.map fun r =>
        if r.id = x.row then { r with info := r.info ++ (x.line ++ "\n"), state := state } else r
      else b.logs
    tried := b.tried ++ [x] }

/-- A `ReadLine` gave these texts, and perhaps found the pipe closed. -/
def read (b : Book) (s : Stream) (texts : List String) (closed : Bool) : Book :=
  { b with
    got := Function.update b.got s (b.got s ++ texts)
    cut := if closed then s :: b.cut else b.cut }

/-- `wg.Done()` -/
def finish (b : Book) (s : Stream) : Book :=
  { b with live := b.live.filter fun s' => s' ≠ s, ended := s :: b.ended }

end Book

/-! ## Calls -/

/-- What `ReadLine` gives where a line is to come: the line, the beginning of it before the pipe is
    closed, or an error. -/
inductive Read where
  | line
  | part (p : String)
  | fin

inductive Call where
  | setState (t : Nat) (s : TaskState)
  | execState (t : Nat) (s : TaskState)
  | getwd
  | chdir (t : Nat) (dir : String)
  | chdirBack (t : Nat) (dir : String)
  | start (t n : Nat) (cmd : String)
  | wait (t n : Nat)
  | state (t : Nat)
  | insertLog (t : Nat) (pid : Int) (s : Option TaskState)
  | setLogID (t : Nat) (id : Int)
  | logStreams (t n : Nat)
  | wgWait (t : Nat)
  | get (key server : String)
  | newClient (server : String)
  | upload (t : Nat) (server file : String)
  | newSession (server : String)
  | sessionRun (server cmd : String)
  | began (s : Stream)
  | readLine (s : Stream) (line : String)
  | logID (t : Nat)
  | writeLog (s : Stream) (id : Int) (line : String) (state : Option TaskState)
  | done (s : Stream)

/-- What a call returns: where an error is all that can come back, the error. -/
abbrev Ans : Call → Type
  | .getwd => String
  | .chdir _ _ | .chdirBack _ _ | .wait _ _ | .newClient _ | .upload _ _ _ | .newSession _
  | .sessionRun _ _ => Option String
  | .start _ _ _ => Except String Int
  | .state _ => Option TaskState
  | .insertLog _ _ _ => Option Int
  | .get _ _ => Int
  | .readLine _ _ => Read
  | .logID _ => Int
  | _ => Unit

/-- What is done in the working directory. -/
inductive Deed where
  | start (cmd : String)
  | read (file : String)

structure World where
  cwd : String
  state : Nat → Option TaskState
  recorded : Nat → Option TaskState
  book : Book
  inside : Option Nat
  worked : List (Nat × Deed × String)

/-- How a call may come out. A stream begins when it was started, and `wg.Wait` returns when the
    task has none left. -/
def serve : (c : Call) → World → Ans c → World → Prop
  | .setState t s, w, _, w' => w' = { w with state := Function.update w.state t (some s) }
  | .execState t s, w, _, w' =>
    w' = w ∨ w' = { w with recorded := Function.update w.recorded t (some s) }
  | .getwd, w, a, w' => (a = w.cwd ∨ a = "") ∧ w' = w
  | .chdir t dir, w, a, w' =>
    (a = none ∧ dir ≠ "" ∧ w' = { w with cwd := dir, inside := some t }) ∨ (a ≠ none ∧ w' = w)
  | .chdirBack _ dir, w, a, w' =>
    (a = none ∧ dir ≠ "" ∧ w' = { w with cwd := dir, inside := none }) ∨
      (a ≠ none ∧ w' = { w with inside := none })
  | .start t _ cmd, w, a, w' => match a with
    | .ok _ => w' = { w with worked := (t, .start cmd, w.cwd) :: w.worked }
    | .error _ => w' = w
  | .wait _ _, w, _, w' => w' = w
  | .state t, w, a, w' => a = w.state t ∧ w' = w
  | .insertLog t pid s, w, a, w' =>
    (∃ id, w.book.New t id ∧ (a = some id ∨ a = none) ∧
      w' = { w with book := w.book.insert ⟨id, t, s, pid, ""⟩ }) ∨ (a = none ∧ w' = w)
  | .setLogID t id, w, _, w' => w' = { w with book := w.book.setLogID t id }
  | .logStreams t n, w, _, w' => w' = { w with book := w.book.logStreams t n }
  | .wgWait t, w, _, w' => (∀ s ∈ w.book.live, s.task ≠ t) ∧ w' = w
  | .get _ _, w, _, w' => w' = w
  | .newClient _, w, _, w' => w' = w
  | .upload t _ file, w, _, w' =>
    w' = { w with worked := (t, .read file, w.cwd) :: w.worked }
  | .newSession _, w, _, w' => w' = w
  | .sessionRun _ _, w, _, w' => w' = w
  | .began s, w, _, w' => s ∈ w.book.live ∧ w' = w
  | .readLine s line, w, a, w' => match a with
    | .line => w' = { w with book := w.book.read s [line] false }
    | .part p =>
      p ≠ "" ∧ p.toList <+: line.toList ∧ w' = { w with book := w.book.read s [p] true }
    | .fin => w' = { w with book := w.book.read s [] true }
  | .logID t, w, a, w' => a = w.book.logID t ∧ w' = w
  | .writeLog s id line state, w, _, w' =>
    ∃ stored, w' = { w with book := w.book.write ⟨s, id, line, stored⟩ state }
  | .done s, w, _, w' => w' = { w with book := w.book.finish s }

/-- Nothing happens but for the tasks and their streams. -/
def rules : Rules Ans World := ⟨serve, fun _ _ => False⟩

/-- Before the first task. -/
def start (cwd : String) : World where
  cwd := cwd
  state _ := none
  recorded _ := none
  book := ⟨fun _ => 0, [], [], fun _ _ => none, fun _ => [], [], [], []⟩
  inside := none
  worked := []

/-! ## The programs -/

abbrev P (α : Type) := Prog Ans α

def updateState (t : Nat) (state : TaskState) : P Unit :=
  .ask (.setState t state) fun _ => .ask (.execState t state) fun _ => .done ()

/-- `writeLogs`, for command `n` of the task. -/
def writeLogs (t n : Nat) (pid : Int) : P Unit :=
  .ask (.state t) fun s => .ask (.insertLog t pid s) fun r => match r with
    | none => .done ()
    | some id => .ask (.setLogID t id) fun _ => .ask (.logStreams t n) fun _ => .done ()

def execSystemCmdWait (t n : Nat) (cmd : String) : P (Option String) :=
  .ask (.start t n cmd) fun r => match r with
    | .error e => .done (some e)
    | .ok pid => writeLogs t n pid >>= fun _ => .ask (.wait t n) .done

/-- The deferred functions of `compile` and `install` once the `Chdir` was made: they run in the
    reverse order. -/
def leave {α : Type} (t : Nat) (oldPath : String) (state : TaskState) (res : α) : P α :=
  .ask (.chdirBack t oldPath) fun _ => updateState t state >>= fun _ => .done res

/-- `compile` of `task.go`. -/
def compile (t : Nat) (tk : Task) : P (Option TaskErr) :=
  updateState t .compileBegin >>= fun _ => .ask .getwd fun oldPath =>
    .ask (.chdir t tk.path) fun err => match err with
      | some e => updateState t .complieFailed >>= fun _ => .done (some (.annotate e tk.path))
      | none => execSystemCmdWait t 0 (buildCmd tk) >>= fun err => match err with
        | some e => leave t oldPath .complieFailed (some (.annotate e (buildCmd tk)))
        | none => .ask (.wgWait t) fun _ => leave t oldPath .complieSuccess none

/-- `./install.sh` for the process of the node that is to be replaced. -/
def installCmd (tk : Task) (pid : Int) : String :=
  "./install.sh " ++ tk.project.name ++ " " ++ toString pid ++ " " ++ tk.hosts

/-- `sc.ExecPipe(cmd, t.writeSSHLogs)` -/
def execPipe (t n : Nat) (server cmd : String) : P (Option String) :=
  .ask (.newSession server) fun err => match err with
    | some e => .done (some e)
    | none => writeLogs t n 0 >>= fun _ => .ask (.sessionRun server cmd) .done

/-- One round of the loop of `install`. -/
def installNode (t : Nat) (tk : Task) (key : String) (i : Nat) (server : String) :
    P (Option TaskErr) :=
  .ask (.get key server) fun pid => .ask (.newClient server) fun err => match err with
    | some e => .done (some (.trace e))
    | none => .ask (.upload t server "./install.sh") fun err => match err with
      | some e => .done (some (.annotate e "install.sh"))
      | none => .ask (.upload t server (tarFile tk)) fun err => match err with
        | some e => .done (some (.trace e))
        | none => execPipe t (i + 2) server (installCmd tk pid) >>= fun err => match err with
          | some e => .done (some (.annotate e (installCmd tk pid)))
          | none => .done none

/-- The loop of `install`, from node `i` on. -/
def installNodes (t : Nat) (tk : Task) (key : String) : Nat → List String → P (Option TaskErr)
  | _, [] => .done none
  | i, server :: servers => installNode t tk key i server >>= fun err => match err with
    | some e => .done (some e)
    | none => installNodes t tk key (i + 1) servers

/-- `install` after its `Chdir`, up to the deferred functions. No error in it reaches the variable
    they read. -/
def installBody (t : Nat) (tk : Task) : P (Res TaskErr Unit) :=
  execSystemCmdWait t 1 (tarCmd tk) >>= fun err => match err with
    | some e => .done (.err (.annotate e (tarCmd tk)))
    | none =>
      if tk.project.source.utf8ByteSize < 7 then .done (.panic "slice bounds out of range")
      else installNodes t tk (sliceFrom tk.project.source 7) 0 tk.project.nodes >>=
        fun err => match err with
          | some e => .done (.err e)
          | none => .ask (.wgWait t) fun _ => .done (.ok ())

/-- `install` of `task.go`. -/
def install (t : Nat) (tk : Task) : P (Res TaskErr Unit) :=
  updateState t .installBegin >>= fun _ => .ask .getwd fun oldPath =>
    .ask (.chdir t tk.path) fun err => match err with
      | some e => updateState t .installFailed >>= fun _ => .done (.err (.annotate e tk.path))
      | none => installBody t tk >>= fun res => leave t oldPath .installSuccess res

/-- `distributor.run` -/
def run (t : Nat) (tk : Task) : P Unit :=
  compile t tk >>= fun err => match err with
    | some _ => .done ()
    | none => install t tk >>= fun _ => .done ()

/-- One round of the loop of `logStream`, once a text was read. -/
def writeLine (s : Stream) (text : String) : P Unit :=
  .ask (.state s.task) fun state => .ask (.logID s.task) fun id =>
    .ask (.writeLog s id text state) fun _ => .done ()

/-- The loop of `logStream`, with these lines to come. -/
def logLines (s : Stream) : List String → P Unit
  | [] => .ask (.done s) fun _ => .done ()
  | line :: lines => .ask (.readLine s line) fun r => match r with
    | .line => writeLine s line >>= fun _ => logLines s lines
    | .part p => writeLine s p >>= fun _ => .ask (.done s) fun _ => .done ()
    | .fin => .ask (.done s) fun _ => .done ()

/-- `logStream` of `task.go`, from where it is started. -/
def logStream (s : Stream) (output : List String) : P Unit :=
  .ask (.began s) fun _ => logLines s output

/-- Any number of deployments, with the streams of their commands. -/
def deploys (tasks : Nat → Task) (output : Stream → List String) (cwd : String) :
    Crew Thread Ans Unit World where
  prog
    | .main t => run t (tasks t)
    | .stream s => logStream s (output s)
  world := start cwd

/-! ## The stages of a task -/

/-- The calls that neither change the logs or the directory nor use it. -/
def Call.calm : Call → Bool
  | .chdir _ _ | .chdirBack _ _ | .start _ _ _ | .upload _ _ _ | .insertLog _ _ _ | .setLogID _ _
  | .logStreams _ _ | .readLine _ _ | .writeLog _ _ _ _ | .done _ => false
  | _ => true

/-- What a calm call leaves as it is. -/
structure Calm (w w' : World) : Prop where
  book : w'.book = w.book
  cwd : w'.cwd = w.cwd
  inside : w'.inside = w.inside
  worked : w'.worked = w.worked

theorem calm_of_serve {c : Call} (hc : c.calm = true) {w w' : World} {a : Ans c}
    (h : serve c w a w') : Calm w w' := by
  have hrefl : Calm w w := ⟨rfl, rfl, rfl, rfl⟩
  cases c with
  | setState t s => exact h ▸ ⟨rfl, rfl, rfl, rfl⟩
  | execState t s => rcases h with rfl | rfl <;> exact ⟨rfl, rfl, rfl, rfl⟩
  | getwd => exact h.2 ▸ hrefl
  | wait t n => exact h ▸ hrefl
  | state t => exact h.2 ▸ hrefl
  | wgWait t => exact h.2 ▸ hrefl
  | get key server => exact h ▸ hrefl
  | newClient server => exact h ▸ hrefl
  | newSession server => exact h ▸ hrefl
  | sessionRun server cmd => exact h ▸ hrefl
  | began s => exact h.2 ▸ hrefl
  | logID t => exact h.2 ▸ hrefl
  | _ => cases hc

/-- Where a task is: out of its directory or in it before command `n`, in it after it has begun
    command `n`, or out of it for good. -/
inductive Stage where
  | out (n : Nat)
  | inn (n : Nat)
  | ran (n : Nat)
  | gone

/-- Where a `Chdir` leads. -/
def Stage.enter (n : Nat) : Option String → Stage
  | none => .inn n
  | some _ => .out n

/-- What holds of a task stage by stage, and that its calls go from one stage to the next. -/
structure Steps {R : Rules Ans World} (P : Pact Thread R) (t : Nat) (tk : Task)
    (S : Stage → World → Prop) : Prop where
  calm : ∀ st {c}, c.calm = true → P.Triple (.main t) (S st) (Prog.call c) fun _ => S st
  start : ∀ n m cmd, P.Triple (.main t) (S (.inn n)) (Prog.call (.start t m cmd)) fun _ =>
    S (.inn n)
  upload : ∀ n server file, P.Triple (.main t) (S (.inn n))
    (Prog.call (.upload t server file)) fun _ => S (.inn n)
  enter : ∀ n, P.Triple (.main t) (S (.out n)) (Prog.call (.chdir t tk.path)) fun err =>
    S (.enter n err)
  back : ∀ n dir, P.Triple (.main t) (S (.inn n)) (Prog.call (.chdirBack t dir)) fun _ =>
    S (.out n)
  quit : ∀ n dir, P.Triple (.main t) (S (.ran n)) (Prog.call (.chdirBack t dir)) fun _ => S .gone
  log : ∀ n pid, P.Triple (.main t) (S (.inn n)) (writeLogs t n pid) fun _ => S (.ran n)
  wait : P.Triple (.main t) (S (.ran 0)) (Prog.call (.wgWait t)) fun _ => S (.inn 1)
  skip : ∀ n w, S (.inn n) w → S (.ran n) w
  next : ∀ n w, S (.ran (n + 1)) w → S (.inn (n + 2)) w

namespace Steps

variable {R : Rules Ans World} {P : Pact Thread R} {t : Nat} {tk : Task} {S : Stage → World → Prop}
  (h : Steps P t tk S) {α : Type}

include h

theorem updateState (st : Stage) (s : TaskState) :
    P.Triple (.main t) (S st) (updateState t s) fun _ => S st :=
  (h.calm st rfl).ask fun _ => (h.calm st rfl).ask fun _ _ hw => hw

/-- The beginning of `compile` and `install`. -/
theorem entry {post : α → World → Prop} {k : String → Option String → Deploy.P α} (n : Nat)
    (s : TaskState) (hk : ∀ old err, P.Triple (.main t) (S (.enter n err)) (k old err) post) :
    P.Triple (.main t) (S (.out n)) (Deploy.updateState t s >>= fun _ =>
      .ask .getwd fun old => .ask (.chdir t tk.path) (k old)) post :=
  (h.updateState _ s).bind fun _ => (h.calm _ rfl).ask fun old => (h.enter n).ask (hk old)

/-- The end of them, when the task is to go on and when it is not. -/
theorem leave (n : Nat) (old : String) (s : TaskState) (a : α) :
    P.Triple (.main t) (S (.inn n)) (leave t old s a) fun _ => S (.out n) :=
  (h.back n old).ask fun _ => (h.updateState _ s).bind fun _ _ hw => hw

theorem leave_quit (n : Nat) (old : String) (s : TaskState) (a : α) :
    P.Triple (.main t) (S (.ran n)) (Deploy.leave t old s a) fun r _ => r = a :=
  (h.quit n old).ask fun _ => (h.updateState _ s).bind fun _ _ _ => rfl

theorem execSystemCmdWait (n : Nat) (cmd : String) :
    P.Triple (.main t) (S (.inn n)) (execSystemCmdWait t n cmd) fun _ => S (.ran n) := by
  refine (h.start n n cmd).ask fun r => ?_
  cases r with
  | error e => exact h.skip n
  | ok pid => exact (h.log n pid).bind fun _ => (h.calm _ rfl).ask fun _ _ hw => hw

theorem compile : P.Triple (.main t) (S (.out 0)) (compile t tk) fun r w =>
    r = none → S (.out 1) w := by
  refine h.entry 0 .compileBegin fun old err => ?_
  cases err with
  | some e => exact (h.updateState _ _).bind fun _ _ _ => nofun
  | none =>
    refine (h.execSystemCmdWait 0 _).bind fun err => ?_
    cases err with
    | some e =>
      refine fun w hw => (h.leave_quit 0 _ _ _ w hw).imp fun r _ hr hnone => ?_
      exact nomatch hr.symm.trans hnone
    | none =>
      refine h.wait.ask fun _ w hw => ?_
      exact (h.leave 1 old .complieSuccess (none : Option TaskErr) w hw).imp fun _ _ hr _ => hr

theorem installNode (key : String) (i : Nat) (server : String) :
    P.Triple (.main t) (S (.inn (i + 2))) (installNode t tk key i server) fun r w =>
      S (if r = none then .inn (i + 3) else .ran (i + 2)) w := by
  have hstop : ∀ e : TaskErr, P.Triple (.main t) (S (.inn (i + 2))) (.done (some e)) fun r w =>
      S (if r = none then .inn (i + 3) else .ran (i + 2)) w := fun e => h.skip (i + 2)
  refine (h.calm _ rfl).ask fun pid => (h.calm _ rfl).ask fun err => ?_
  cases err with
  | some e => exact hstop _
  | none =>
    refine (h.upload _ _ _).ask fun err => ?_
    cases err with
    | some e => exact hstop _
    | none =>
      refine (h.upload _ _ _).ask fun err => ?_
      cases err with
      | some e => exact hstop _
      | none =>
        have hpipe : P.Triple (.main t) (S (.inn (i + 2)))
            (execPipe t (i + 2) server (installCmd tk pid)) fun _ => S (.ran (i + 2)) := by
          refine (h.calm _ rfl).ask fun err => ?_
          cases err with
          | some e => exact h.skip _
          | none => exact (h.log _ 0).bind fun _ => (h.calm _ rfl).ask fun _ _ hw => hw
        refine hpipe.bind fun err => ?_
        cases err with
        | some e => exact fun _ hw => hw
        | none => exact h.next (i + 1)

theorem installNodes (key : String) (servers : List String) : ∀ i,
    P.Triple (.main t) (S (.inn (i + 2))) (installNodes t tk key i servers) fun _ w =>
      ∃ n, S (.ran n) w := by
  induction servers with
  | nil => exact fun i w hw => ⟨i + 2, h.skip _ w hw⟩
  | cons server servers ih =>
    refine fun i => (h.installNode key i server).bind fun err => ?_
    cases err with
    | some e => exact fun w hw => ⟨i + 2, hw⟩
    | none => exact ih (i + 1)

theorem installBody : P.Triple (.main t) (S (.inn 1)) (installBody t tk) fun _ w =>
    ∃ n, S (.ran n) w := by
  refine (h.execSystemCmdWait 1 _).bind fun err => ?_
  cases err with
  | some e => exact fun w hw => ⟨1, hw⟩
  | none =>
    simp only
    split
    · exact fun w hw => ⟨1, hw⟩
    · refine fun w hw => (h.installNodes _ _ 0 w (h.next 0 w hw)).bind fun err w₁ _ h₁ => ?_
      cases err with
      | some e => exact h₁
      | none =>
        obtain ⟨n, hn⟩ := h₁
        refine Pact.Triple.ask (h.calm (.ran n) rfl) (fun _ w₂ h₂ => ?_) w₁ hn
        exact ⟨n, h₂⟩

theorem install : P.Triple (.main t) (S (.out 1)) (install t tk) fun _ _ => True := by
  refine h.entry 1 .installBegin fun old err => ?_
  cases err with
  | some e => exact (h.updateState _ _).bind fun _ _ _ => trivial
  | none =>
    refine h.installBody.bind fun res w hw => ?_
    obtain ⟨n, hn⟩ := hw
    exact (h.leave_quit n _ _ _ w hn).imp fun _ _ _ => trivial

theorem run : P.Triple (.main t) (S (.out 0)) (run t tk) fun _ _ => True := by
  refine h.compile.bind fun err w hw => ?_
  cases err with
  | some e => exact trivial
  | none => exact (h.install w (hw rfl)).bind fun _ _ _ _ => trivial

end Steps

end Doodle.Distributor.Deploy
