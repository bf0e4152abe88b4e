/-
  The three retry loops of `repeater/cache.go`: `dbQuery`, `queryDB` and `executeDB`, with the
  writers of statistics that go through the last.

  All three are the loop of `Lib.Retry` over the database connection. `dbQuery` reconnects after a
  failed call, the other two try again on the same connection. The error of a connect and that of
  a call share one variable, so a connect that succeeds in the fifth and last round leaves no
  error although nothing was called: `honest_iff` says that this is the only way in which a loop
  reports a success it did not have, and with it the only way in which a caller gets nil rows or
  a nil result. `late_connect_reported` is a reachable state in which all three loops do.
-/
import Doodle.Lib.Retry
import Doodle.Repeater.DbCache

namespace Doodle.Repeater

open Doodle.Go Doodle.Lib

/-! ## Writing statistics -/

/-- The placeholders in the text of the statement. -/
def StmtName.params : StmtName → Nat
  | .selService => 1
  | .selIface => 2
  | .selVar => 1
  | .selApp => 2
  | .selRelation => 2
  | .instStats => 7
  | .instErrorStats => 5

/-- `sql.Stmt.Exec` with `argc` arguments, which must be as many as the placeholders: whether it
    returned a result. -/
def stmtExec (srv : Server) (dc : DbCache) (s : Option Stmt) (argc : Nat) :
    Res Err Unit × DbCache :=
  match s with
  | none => (.panic "nil pointer dereference", dc)
  | some st =>
    if st ∈ dc.closedStmts then (.err (.text "sql: statement is closed"), dc)
    else if st.conn ∈ dc.closedConns then (.err (.text "sql: database is closed"), dc)
    else if argc ≠ st.name.params then
      (.err (.text ("sql: expected " ++ toString st.name.params ++ " arguments, got " ++
        toString argc)), dc)
    else if srv dc.tick then (.ok (), { dc with tick := dc.tick + 1 })
    else (.err (.text "exec failed"), { dc with tick := dc.tick + 1 })

/-- The connection as the loops see it. -/
def dbLink (srv : Server) (redial : Bool) (call : DbCache → Res Err Unit × DbCache) :
    Link DbCache Err :=
  ⟨fun dc => dc.dbc.isSome, call, conectDB srv, redial⟩

/-- `executeDB`: whether `res` is not nil, and the error. -/
def executeDB (srv : Server) (dc : DbCache) (s : Option Stmt) (argc : Nat) :
    Res Err (Bool × Option Err) × DbCache :=
  (dbLink srv false fun dc => stmtExec srv dc s argc).loop maxRetry dc false none

/-- `insertDB`, without the id it returns; `LastInsertId` of a MySQL result does not fail. -/
def insertDB (srv : Server) (dc : DbCache) (s : Option Stmt) (argc : Nat) :
    Res Err Unit × DbCache :=
  match executeDB srv dc s argc with
  | (.ok (_, some e), dc') => (.err e, dc')
  | (.ok (false, none), dc') => (.panic "nil pointer dereference", dc')
  | (.ok (true, none), dc') => (.ok (), dc')
  | (.err e, dc') => (.err e, dc')
  | (.panic p, dc') => (.panic p, dc')

/-- `insertStats`: interface, application, count, cost, the time, and count and cost again. -/
def insertStats (srv : Server) (dc : DbCache) : Res Err Unit × DbCache :=
  insertDB srv dc (dc.stmt .instStats) 7

/-- `insertErrorStats`: session, interface, application and info. -/
def insertErrorStats (srv : Server) (dc : DbCache) : Res Err Unit × DbCache :=
  insertDB srv dc (dc.stmt .instErrorStats) 4

/-! ## Runs -/

namespace Session

/-- What the gateway does with its `dbCache`: the lookups of a request and the flushes of the
    statistics. -/
inductive Op where
  | getInterface (key : String)
  | getApplication (id : Int) (token : String)
  | validateRelation (appID ifaceID : Int)
  | getVariable (id : Int)
  | insertStats
  | insertErrorStats

/-- An operation, with the tables and the two clock readings during it. -/
structure Step where
  op : Op
  tb : Tables
  tg : Int
  ta : Int

/-- The state after the operation, also when it panics: the gateway recovers in the handler of a
    request. -/
def Step.exec (srv : Server) (st : Step) (dc : DbCache) : DbCache :=
  match st.op with
  | .getInterface key => (getInterface srv st.tb st.tg st.ta dc key).2
  | .getApplication id token => (getApplication srv st.tb st.tg st.ta dc id token).2
  | .validateRelation appID ifaceID => (validateRelation srv st.tb st.tg st.ta dc appID ifaceID).2
  | .getVariable id => (getVariable srv st.tb st.tg st.ta dc id).2
  | .insertStats => (Repeater.insertStats srv dc).2
  | .insertErrorStats => (Repeater.insertErrorStats srv dc).2

/-- The state after the steps, from the one `Init` leaves. -/
def run (srv : Server) (timeout : Int) (steps : List Step) : DbCache :=
  steps.foldl (fun dc st => st.exec srv dc) (initDC srv timeout)

end Session

/-! ## The loops as one -/

theorem queryLoop_eq (srv : Server) (s : Option Stmt) (n : Nat) :
    ∀ (dc : DbCache) (rows : Bool) (err : Option Err), queryLoop srv s n dc rows err =
      (dbLink srv false fun dc => stmtQuery srv dc s).loop n dc rows err := by
  induction n with
  | zero => intro dc rows err; rfl
  | succ n ih =>
    intro dc rows err
    simp only [dbLink] at ih ⊢
    rcases hcall : stmtQuery srv dc s with ⟨_ | e | p, dc'⟩ <;>
      simp only [queryLoop, Link.loop, ih, hcall, Bool.false_eq_true, if_false]

theorem dbQueryLoop_eq (srv : Server) (s : StmtName) (n : Nat) :
    ∀ (dc : DbCache) (rows : Bool) (err : Option Err), dbQueryLoop srv s n dc rows err =
      (dbLink srv true fun dc => stmtQuery srv dc (dc.stmt s)).loop n dc rows err := by
  induction n with
  | zero => intro dc rows err; rfl
  | succ n ih =>
    intro dc rows err
    simp only [dbLink] at ih ⊢
    rcases hcall : stmtQuery srv dc (dc.stmt s) with ⟨_ | e | p, dc'⟩ <;>
      simp only [dbQueryLoop, Link.loop, ih, hcall, if_true]

/-- A query touches nothing but the request counter. -/
theorem stmtQuery_snd (srv : Server) (dc : DbCache) (s : Option Stmt) :
    ∃ t, (stmtQuery srv dc s).2 = { dc with tick := t } := by
  unfold stmtQuery
  split
  · exact ⟨dc.tick, rfl⟩
  · split
    · exact ⟨dc.tick, rfl⟩
    · split
      · exact ⟨dc.tick, rfl⟩
      · split <;> exact ⟨_, rfl⟩

theorem stmtExec_snd (srv : Server) (dc : DbCache) (s : Option Stmt) (argc : Nat) :
    ∃ t, (stmtExec srv dc s argc).2 = { dc with tick := t } := by
  unfold stmtExec
  split
  · exact ⟨dc.tick, rfl⟩
  · split
    · exact ⟨dc.tick, rfl⟩
    · split
      · exact ⟨dc.tick, rfl⟩
      · split
        · exact ⟨dc.tick, rfl⟩
        · split <;> exact ⟨_, rfl⟩

/-! ## What a loop reports -/

/-- A call of one of the loops. `dbQuery` is called with the query of a statement, which it looks
    up anew each time; the other two get the statement their caller read. -/
inductive LoopCall where
  | dbQuery (n : StmtName)
  | queryDB (s : Option Stmt)
  | executeDB (s : Option Stmt) (argc : Nat)

namespace LoopCall

/-- After the loop: whether the passed function, `Query` or `Exec` returned without error, and the
    error. -/
def loop (srv : Server) (dc : DbCache) : LoopCall → Res Err (Bool × Option Err) × DbCache
  | dbQuery n => dbQueryLoop srv n maxRetry dc false none
  | queryDB s => queryLoop srv s maxRetry dc false none
  | executeDB s argc => Repeater.executeDB srv dc s argc

/-- The code that goes on with the rows or the result: `getVariable`, the rest of `queryDB`, and
    `insertDB`. -/
def caller (srv : Server) (dc : DbCache) : LoopCall → Res Err Unit × DbCache
  | dbQuery n => onRow (fun _ => ()) (Repeater.dbQuery srv dc n ([] : List Unit))
  | queryDB s => Repeater.queryDB srv dc s [()]
  | executeDB s argc => insertDB srv dc s argc

def link (srv : Server) : LoopCall → Link DbCache Err
  | dbQuery n => dbLink srv true fun dc => stmtQuery srv dc (dc.stmt n)
  | queryDB s => dbLink srv false fun dc => stmtQuery srv dc s
  | executeDB s argc => dbLink srv false fun dc => stmtExec srv dc s argc

theorem loop_eq (srv : Server) (dc : DbCache) (c : LoopCall) :
    c.loop srv dc = (c.link srv).loop maxRetry dc false none := by
  cases c with
  | dbQuery n => exact dbQueryLoop_eq srv n maxRetry dc false none
  | queryDB s => exact queryLoop_eq srv s maxRetry dc false none
  | executeDB s argc => rfl

theorem link_steady (srv : Server) (c : LoopCall) : (c.link srv).Steady := by
  intro hredial dc hup
  cases c with
  | dbQuery n => exact nomatch hredial
  | queryDB s =>
    obtain ⟨t, ht⟩ := stmtQuery_snd srv dc s
    simp only [link, dbLink] at hup ⊢
    rwa [ht]
  | executeDB s argc =>
    obtain ⟨t, ht⟩ := stmtExec_snd srv dc s argc
    simp only [link, dbLink] at hup ⊢
    rwa [ht]

/-- A nil error means that a call returned without error, and the caller does not stumble over
    what the loop left it. -/
structure Honest (srv : Server) (dc : DbCache) (c : LoopCall) : Prop where
  served : ∀ served, (c.loop srv dc).1 = .ok (served, none) → served = true
  usable : ∀ r, (c.loop srv dc).1 = .ok r → ∀ p, (c.caller srv dc).1 ≠ .panic p

theorem outcome_cases {r : Bool × Option Err} (hr : r ≠ (false, none)) :
    (∃ served e, r = (served, some e)) ∨ r = (true, none) := by
  obtain ⟨served, err⟩ := r
  cases err with
  | some e => exact Or.inl ⟨served, e, rfl⟩
  | none =>
    cases served with
    | false => exact absurd rfl hr
    | true => exact Or.inr rfl

/-- The caller panics over what the loop left it only when it left nothing and no error. -/
theorem caller_of_loop (srv : Server) (dc : DbCache) (c : LoopCall) (r : Bool × Option Err)
    (hloop : (c.loop srv dc).1 = .ok r) (hr : r ≠ (false, none)) (p : String) :
    (c.caller srv dc).1 ≠ .panic p := by
  have hrun : c.loop srv dc = (.ok r, (c.loop srv dc).2) := Prod.ext hloop rfl
  generalize (c.loop srv dc).2 = dc' at hrun
  intro h
  obtain ⟨served, e, rfl⟩ | rfl := outcome_cases hr
  all_goals
    cases c with
    | dbQuery n =>
      simp only [loop] at hrun
      simp [caller, Repeater.dbQuery, hrun, onRow] at h
    | queryDB s =>
      simp only [loop] at hrun
      simp [caller, Repeater.queryDB, hrun] at h
    | executeDB s argc =>
      simp only [loop] at hrun
      simp [caller, insertDB, hrun] at h

/-- A loop is honest exactly when it does not end on a connect that succeeds: each of the five
    rounds finds no connection (or, in `dbQuery`, a failed call) and connects, the last time with
    success. -/
theorem honest_iff (srv : Server) (dc : DbCache) (c : LoopCall) :
    c.Honest srv dc ↔ ¬ (c.link srv).LastConnects (maxRetry - 1) dc := by
  rw [← Link.loop_unserved_iff (c.link srv) (c.link_steady srv) (maxRetry - 1) dc none,
    show maxRetry - 1 + 1 = maxRetry from rfl, ← c.loop_eq srv dc]
  constructor
  · intro h hnone
    exact absurd (h.served false hnone) (by decide)
  · intro hne
    refine ⟨fun served hs => ?_, fun r hr => ?_⟩
    · cases served with
      | true => rfl
      | false => exact absurd hs hne
    · exact c.caller_of_loop srv dc r hr fun h0 => hne (h0 ▸ hr)

end LoopCall

/-- The server goes away after `Init` and is back for the fifth connect of the second operation. -/
def backAt18 : Server := fun n => n < 8 || 18 ≤ n

def noTables : Tables := ⟨id, [], [], [], [], []⟩

/-- After a failed `getVariable` there is no connection. -/
def cutOff : DbCache := Session.run backAt18 60 [⟨.getVariable 1, noTables, 0, 0⟩]

/-- All three loops report a success without a call. -/
theorem late_connect_reported :
    ¬ (LoopCall.dbQuery .selVar).Honest backAt18 cutOff ∧
    ¬ (LoopCall.queryDB (cutOff.stmt .selApp)).Honest backAt18 cutOff ∧
    ¬ (LoopCall.executeDB (cutOff.stmt .instStats) 7).Honest backAt18 cutOff := by
  refine ⟨fun h => ?_, fun h => ?_, fun h => ?_⟩
  · exact absurd (h.served false (by decide)) (by decide)
  · exact absurd (h.served false (by decide)) (by decide)
  · exact absurd (h.served false (by decide)) (by decide)

end Doodle.Repeater
