/-
  Where failed calls go: `failed` of `repeater/stats.go` keeps them in the cache, and each round of
  `run` takes them out and hands them to `insertErrorStats` of `repeater/cache.go`.

  The statement has five placeholders and `insertErrorStats` passes four arguments, without the
  time. `Exec` refuses it on a connection that lives and a server that never fails, five times in
  `executeDB`, and `run` logs the error.

  * `insertErrorStats_not_ok`: no failed call is ever stored.
  * `allStored_iff`: so a history stores what it should exactly when no call fails before a round.
-/
import Doodle.Repeater.Retry
import Doodle.Repeater.Stats

namespace Doodle.Repeater.Stats

open Doodle.Go Doodle.Lib

/-! ## Rounds of `run` -/

/-- An argument of a statement. -/
inductive Arg where
  | text (s : String)
  | int (n : Int)
  | time (t : Int)
  deriving DecidableEq, Repr

/-- The arguments that `insertErrorStats` passes. -/
def errorArgs (e : ErrorEntry) : List Arg :=
  [.text e.session, .int e.iface, .int e.app, .text e.info]

/-- The cache, the connection and the rows of `stats_error`. -/
structure Pipeline where
  cache : StatsCache
  dc : DbCache
  rows : List (List Arg)

/-- `insertErrorStats` for an entry: a row when `Exec` succeeds. -/
def storeError (srv : Server) (db : DbCache × List (List Arg)) (e : ErrorEntry) :
    DbCache × List (List Arg) :=
  let r := insertErrorStats srv db.1
  (r.2, if r.1.isOk then db.2 ++ [errorArgs e] else db.2)

/-- A round of `run`, ranging over the statistics in these orders. Errors are logged. -/
def round (srv : Server) (ifaces : List Int) (apps : Int → List Int) (w : Pipeline) : Pipeline :=
  let (es, s) := w.cache.entrys ifaces apps
  let dc := es.foldl (fun dc _ => (insertStats srv dc).2) w.dc
  let (ees, s') := s.errorEntrys
  let (dc', rows) := ees.foldl (storeError srv) (dc, w.rows)
  ⟨s', dc', rows⟩

inductive Event where
  | success (app iface : Int) (tm : BitVec 64)
  | failed (id : String) (app iface : Int) (log : String) (now : Int)
  | round

def Event.Step (srv : Server) : Event → Pipeline → Pipeline → Prop
  | .success app iface tm, w, w' => w' = { w with cache := w.cache.success app iface tm }
  | .failed id app iface log now, w, w' =>
    w' = { w with cache := w.cache.failed id app iface log now }
  | .round, w, w' => ∃ ifaces apps, w.cache.Ranges ifaces apps ∧
      w' = Stats.round srv ifaces apps w

/-- The row that a failed call should have: session, interface, application, text and time. -/
def errorRow (e : ErrorEntry) : List Arg :=
  [.text e.session, .int e.iface, .int e.app, .text e.info, .time e.time]

/-- The rows of the failed calls, in their order. -/
def failedRows (events : List Event) : List (List Arg) :=
  events.filterMap fun event => match event with
    | .failed id app iface log now => some (errorRow (failedEntry id app iface log now))
    | _ => none

/-- After each round `stats_error` has exactly the rows of the calls that failed before it. -/
def AllStored (srv : Server) (dc : DbCache) (events : List Event) : Prop :=
  ∀ before after, events = before ++ .round :: after →
    ∀ w, RelRun (Event.Step srv) (before ++ [.round]) ⟨newStatsCache, dc, []⟩ w →
      w.rows = failedRows before

/-- A connection that lives, with all statements prepared on it. -/
structure LiveDb where
  dc : DbCache
  live : Live dc

/-! ## Nothing is stored -/

section Insert

variable (srv : Server) {dc : DbCache}

theorem insertDB_snd (s : Option Stmt) (argc : Nat) :
    (insertDB srv dc s argc).2 = (executeDB srv dc s argc).2 := by
  unfold insertDB
  split <;> simp only [*]

/-- A write leaves the connection alive. -/
theorem live_insertDB (h : Live dc) (s : Option Stmt) (argc : Nat) :
    Live (insertDB srv dc s argc).2 := by
  rw [insertDB_snd, executeDB]
  refine Link.loop_keeps _ (fun dc hdc => ?_) (fun dc hdc hdown => ?_) maxRetry dc false none h
  · obtain ⟨t, ht⟩ := stmtExec_snd srv dc s argc
    show Live (stmtExec srv dc s argc).2
    rw [ht]
    exact hdc
  · obtain ⟨c, hc, -⟩ := hdc
    rcases hdown with hdown | hdown
    · simp only [dbLink, hc, Option.isSome_some] at hdown
      cases hdown
    · cases hdown

/-- `Exec` refuses four arguments for five placeholders. -/
theorem stmtExec_ne_ok (c : Nat) (dc : DbCache) :
    (stmtExec srv dc (some ⟨.instErrorStats, c⟩) 4).1 ≠ .ok () := by
  unfold stmtExec
  simp only [StmtName.params]
  split
  · exact nofun
  · split <;> exact nofun

theorem insertErrorStats_not_ok (h : Live dc) : (insertErrorStats srv dc).1.isOk = false := by
  obtain ⟨c, -, -, hstmt⟩ := h
  have hserved := Link.loop_not_served
    (dbLink srv false fun dc => stmtExec srv dc (some ⟨.instErrorStats, c⟩) 4)
    (stmtExec_ne_ok srv c) maxRetry dc none
  rw [insertErrorStats, (hstmt .instErrorStats).1, insertDB, executeDB]
  generalize Link.loop _ maxRetry dc false none = r at hserved ⊢
  obtain ⟨outcome, dc'⟩ := r
  cases outcome with
  | ok r =>
    obtain ⟨served, err⟩ := r
    obtain rfl : served = false := hserved _ rfl
    cases err <;> rfl
  | err e => rfl
  | panic p => rfl

end Insert

theorem storeErrors_spec (srv : Server) (ees : List ErrorEntry) : ∀ dc rows, Live dc →
    Live (ees.foldl (storeError srv) (dc, rows)).1 ∧
      (ees.foldl (storeError srv) (dc, rows)).2 = rows := by
  induction ees with
  | nil => exact fun dc rows h => ⟨h, rfl⟩
  | cons e ees ih =>
    intro dc rows h
    have hstep : storeError srv (dc, rows) e = ((insertErrorStats srv dc).2, rows) := by
      rw [storeError, insertErrorStats_not_ok srv h]
      rfl
    rw [List.foldl_cons, hstep]
    exact ih _ rows (live_insertDB srv h _ 4)

theorem live_insertStats (srv : Server) (es : List Entry) : ∀ dc, Live dc →
    Live (es.foldl (fun dc _ => (insertStats srv dc).2) dc) := by
  induction es with
  | nil => exact fun dc h => h
  | cons e es ih => exact fun dc h => ih _ (live_insertDB srv h _ 7)

/-- What one step keeps: a connection, and an empty table. -/
theorem rows_step {srv : Server} {event : Event} {w w' : Pipeline} (h : Live w.dc ∧ w.rows = [])
    (hstep : event.Step srv w w') : Live w'.dc ∧ w'.rows = [] := by
  cases event with
  | success app iface tm =>
    obtain rfl := hstep
    exact h
  | failed id app iface log now =>
    obtain rfl := hstep
    exact h
  | round =>
    obtain ⟨ifaces, apps, -, rfl⟩ := hstep
    have hlive := live_insertStats srv (w.cache.entrys ifaces apps).1 w.dc h.1
    obtain ⟨hdc, hrows⟩ :=
      storeErrors_spec srv (w.cache.entrys ifaces apps).2.errorEntrys.1 _ w.rows hlive
    exact ⟨hdc, hrows.trans h.2⟩

theorem rows_run {srv : Server} {dc : DbCache} (h : Live dc) {events : List Event} {w : Pipeline}
    (hrun : RelRun (Event.Step srv) events ⟨newStatsCache, dc, []⟩ w) : w.rows = [] :=
  (inv_of_relRun (I := fun _ w => Live w.dc ∧ w.rows = []) events
    (fun _ _ _ _ _ hinv hstep => rows_step hinv hstep) ⟨h, rfl⟩ hrun).2

/-! ## When that is right -/

theorem exists_events (srv : Server) (events : List Event) :
    ∀ w, ∃ w', RelRun (Event.Step srv) events w w' := by
  induction events with
  | nil => exact fun w => ⟨w, rfl⟩
  | cons event events ih =>
    intro w
    obtain ⟨t, ht⟩ : ∃ t, event.Step srv w t := by
      cases event with
      | success app iface tm => exact ⟨_, rfl⟩
      | failed id app iface log now => exact ⟨_, rfl⟩
      | round =>
        obtain ⟨ifaces, apps, hranges⟩ := w.cache.exists_ranges
        exact ⟨_, ifaces, apps, hranges, rfl⟩
    obtain ⟨w', hrun⟩ := ih t
    exact ⟨w', t, ht, hrun⟩

/-- No call of the list has failed. -/
def NoneFailed (events : List Event) : Prop := ∀ event ∈ events, match event with
  | .failed .. => False
  | _ => True

theorem failedRows_eq_nil_iff {events : List Event} :
    failedRows events = [] ↔ NoneFailed events := by
  rw [failedRows, List.filterMap_eq_nil_iff]
  refine forall₂_congr fun event _ => ?_
  cases event <;> simp

theorem noneFailed_of_stored {srv : Server} {G : LiveDb} (before after : List Event)
    (h : AllStored srv G.dc (before ++ .round :: after)) : NoneFailed before := by
  obtain ⟨w, hrun⟩ := exists_events srv (before ++ [.round]) ⟨newStatsCache, G.dc, []⟩
  exact failedRows_eq_nil_iff.mp ((h before after rfl w hrun).symm.trans (rows_run G.live hrun))

/-- Every failed call is stored exactly when none precedes a round. -/
theorem allStored_iff (srv : Server) (G : LiveDb) (events : List Event) :
    AllStored srv G.dc events ↔
      ∀ before after, events = before ++ .round :: after → NoneFailed before := by
  constructor
  · rintro h before after rfl
    exact noneFailed_of_stored before after h
  · intro h before after hsplit w hrun
    rw [rows_run G.live hrun, failedRows_eq_nil_iff.mpr (h before after hsplit)]

/-- The connection that `Init` leaves on a server that never fails. -/
def readyDb : LiveDb := ⟨initDC (fun _ => true) 0, (initDC_spec _ (fun _ => rfl) 0).1⟩

/-- One failed call and a round: its row is missing. -/
theorem failed_call_dropped :
    ¬ AllStored (fun _ => true) readyDb.dc [.failed "s1" 2 3 "timeout" 0, .round] := by
  intro h
  exact noneFailed_of_stored [.failed "s1" 2 3 "timeout" 0] [] h _ List.mem_cons_self

end Doodle.Repeater.Stats
