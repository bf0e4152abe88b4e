/-
  Which prepared statements the gateway uses, over any run of lookups and flushes and any
  outcomes of the server.

  `Linked` is what every operation keeps: without a connection there are no statements, and with
  one every statement was prepared by the `conectDB` that opened it and is not closed. So the
  statement a caller passes to `queryDB` or `executeDB` is right when there is a connection. When
  there is none it is nil, and the loop calls it all the same once it has connected:
  `uses_belong_iff`.
-/
import Doodle.Repeater.Retry

namespace Doodle.Repeater

open Doodle.Go Doodle.Lib

/-! ## Uses -/

/-- A `Query` or `Exec`: the statement it is called on and the state at that moment. -/
abbrev Use := Option Stmt × DbCache

/-- The statement is not nil, not closed, and was prepared by the `conectDB` that opened the
    current connection. -/
def Belongs (u : Use) : Prop :=
  ∃ st, u.1 = some st ∧ st ∉ u.2.closedStmts ∧ u.2.dbc = some st.conn

def loopUses (srv : Server) (call : DbCache → Res Err Unit × DbCache) (s : Option Stmt)
    (dc : DbCache) : List Use :=
  ((dbLink srv false call).calls maxRetry dc).map fun dc => (s, dc)

/-- The uses in `queryDB`. -/
def queryUses (srv : Server) (dc : DbCache) (s : Option Stmt) : List Use :=
  loopUses srv (fun dc => stmtQuery srv dc s) s dc

/-- The uses in `executeDB`. -/
def executeUses (srv : Server) (dc : DbCache) (s : Option Stmt) (argc : Nat) : List Use :=
  loopUses srv (fun dc => stmtExec srv dc s argc) s dc

/-- The uses in what `getInterface` does when the cache has nothing. -/
def interfaceUses (srv : Server) (tb : Tables) (key : String) (dc : DbCache) : List Use :=
  match split key '/' with
  | _ :: p1 :: _ :: _ =>
    queryUses srv dc (dc.stmt .selService) ++
      match queryDB srv dc (dc.stmt .selService) (selService tb p1) with
      | (.ok _, dc) => queryUses srv dc (dc.stmt .selIface)
      | _ => []
  | _ => []

/-- The state after the cache was asked for `key`, when it has nothing. -/
def missed (dc : DbCache) (tg : Int) (key : String) : Option DbCache :=
  match dc.cache.get tg key with
  | (_, some _) => none
  | (cache, none) => some { dc with cache := cache }

namespace Session.Step

/-- The state in which the operation comes to `queryDB` or `executeDB`, if it does: the cache has
    nothing, and the path has its parts. `getVariable` goes through `dbQuery`. -/
def asked (st : Step) (dc : DbCache) : Option DbCache :=
  match st.op with
  | .getInterface key => if (split key '/').length < 3 then none else missed dc st.tg key
  | .getApplication id _ => missed dc st.tg (appKey id)
  | .validateRelation appID ifaceID => missed dc st.tg (relationKey appID ifaceID)
  | .getVariable _ => none
  | .insertStats => some dc
  | .insertErrorStats => some dc

/-- The uses from that state on. -/
def usesFrom (srv : Server) (st : Step) (dc : DbCache) : List Use :=
  match st.op with
  | .getInterface key => interfaceUses srv st.tb key dc
  | .getApplication _ _ => queryUses srv dc (dc.stmt .selApp)
  | .validateRelation _ _ => queryUses srv dc (dc.stmt .selRelation)
  | .getVariable _ => []
  | .insertStats => executeUses srv dc (dc.stmt .instStats) 7
  | .insertErrorStats => executeUses srv dc (dc.stmt .instErrorStats) 4

/-- The uses in `queryDB` and `executeDB` during the operation. -/
def uses (srv : Server) (st : Step) (dc : DbCache) : List Use :=
  match st.asked dc with
  | none => []
  | some dc => st.usesFrom srv dc

end Session.Step

/-- The uses in a run from `dc`. -/
def runUses (srv : Server) : List Session.Step → DbCache → List Use
  | [], _ => []
  | st :: steps, dc => st.uses srv dc ++ runUses srv steps (st.exec srv dc)

/-! ## Statements and their connection -/

/-- Without a connection no statement; with one, every statement is of that connection and open.
    Numbers of connections are not given out twice. -/
structure Linked (dc : DbCache) : Prop where
  closed_lt : ∀ st ∈ dc.closedStmts, st.conn < dc.opened
  held_lt : ∀ n st, dc.stmt n = some st → st.conn < dc.opened
  link : (dc.dbc = none ∧ ∀ n, dc.stmt n = none) ∨
    ∃ c, dc.dbc = some c ∧ ∀ n, dc.stmt n = some ⟨n, c⟩ ∧ (⟨n, c⟩ : Stmt) ∉ dc.closedStmts

theorem Linked.withCache {dc : DbCache} (h : Linked dc) (cache : Crab.Cache Val) (t : Nat) :
    Linked { dc with cache := cache, tick := t } := ⟨h.closed_lt, h.held_lt, h.link⟩

theorem linked_new (timeout : Int) : Linked (newDbCache timeout) where
  closed_lt _ h := nomatch h
  held_lt _ _ h := nomatch h
  link := Or.inl ⟨rfl, fun _ => rfl⟩

/-- Closing everything leaves the state linked when the statements held were given out before. -/
theorem linked_closeAll {dc : DbCache} (hclosed : ∀ st ∈ dc.closedStmts, st.conn < dc.opened)
    (hheld : ∀ n st, dc.stmt n = some st → st.conn < dc.opened) : Linked (closeAll dc) where
  closed_lt st hst := by
    rcases List.mem_append.mp hst with hst | hst
    · obtain ⟨n, -, hn⟩ := List.mem_filterMap.mp hst
      exact hheld n st hn
    · exact hclosed st hst
  held_lt _ _ h := nomatch h
  link := Or.inl ⟨rfl, fun _ => rfl⟩

theorem linked_conectDB (srv : Server) {dc : DbCache} (h : Linked dc) :
    Linked (conectDB srv dc).2 := by
  unfold conectDB
  cases hsrv : srv dc.tick with
  | false => exact linked_closeAll h.closed_lt h.held_lt
  | true =>
    simp only [if_true]
    obtain ⟨t, f, hdc, hheld, -, hall⟩ := prepareAll_spec srv dc.opened StmtName.all
      { dc with tick := dc.tick + 1, opened := dc.opened + 1, dbc := some dc.opened }
    generalize prepareAll srv dc.opened StmtName.all
      { dc with tick := dc.tick + 1, opened := dc.opened + 1, dbc := some dc.opened } = r
      at hdc hall ⊢
    obtain ⟨err, dc'⟩ := r
    obtain rfl := hdc
    have hclosed : ∀ st ∈ dc.closedStmts, st.conn < dc.opened + 1 := fun st hst =>
      Nat.lt_succ_of_lt (h.closed_lt st hst)
    have hlt : ∀ n st, f n = some st → st.conn < dc.opened + 1 := by
      intro n st hst
      rcases hheld n st hst with hc | hold
      · omega
      · exact Nat.lt_succ_of_lt (h.held_lt n st hold)
    cases err with
    | some e => exact linked_closeAll hclosed hlt
    | none =>
      refine ⟨hclosed, hlt, Or.inr ⟨dc.opened, rfl, fun n => ⟨hall rfl n n.mem_all, ?_⟩⟩⟩
      intro hmem
      exact absurd (h.closed_lt _ hmem) (Nat.lt_irrefl _)

/-- There is a connection after `conectDB` exactly when it returned no error. The cache stays. -/
theorem conectDB_dbc_cache (srv : Server) (dc : DbCache) :
    (conectDB srv dc).2.dbc.isSome = (conectDB srv dc).1.isNone ∧
      (conectDB srv dc).2.cache = dc.cache := by
  unfold conectDB
  cases hsrv : srv dc.tick with
  | false => exact ⟨rfl, rfl⟩
  | true =>
    simp only [if_true]
    obtain ⟨t, f, hdc, -⟩ := prepareAll_spec srv dc.opened StmtName.all
      { dc with tick := dc.tick + 1, opened := dc.opened + 1, dbc := some dc.opened }
    generalize prepareAll srv dc.opened StmtName.all
      { dc with tick := dc.tick + 1, opened := dc.opened + 1, dbc := some dc.opened } = r at hdc ⊢
    obtain ⟨err, dc'⟩ := r
    obtain rfl := hdc
    cases err <;> exact ⟨rfl, rfl⟩

/-! ## Every operation keeps the link -/

theorem linked_loop (srv : Server) (redial : Bool) {call : DbCache → Res Err Unit × DbCache}
    (hcall : ∀ dc, ∃ t, (call dc).2 = { dc with tick := t }) {dc : DbCache} (h : Linked dc) :
    Linked ((dbLink srv redial call).loop maxRetry dc false none).2 := by
  refine Link.loop_keeps (dbLink srv redial call) (fun dc h => ?_) (fun dc h _ => ?_) maxRetry dc
    false none h
  · obtain ⟨t, ht⟩ := hcall dc
    show Linked (call dc).2
    rw [ht]
    exact h.withCache dc.cache t
  · exact linked_conectDB srv h

variable {α β : Type}

theorem queryDB_snd (srv : Server) (dc : DbCache) (s : Option Stmt) (answer : List α) :
    (queryDB srv dc s answer).2 =
      ((dbLink srv false fun dc => stmtQuery srv dc s).loop maxRetry dc false none).2 := by
  unfold queryDB
  rw [queryLoop_eq]
  generalize (dbLink srv false fun dc => stmtQuery srv dc s).loop maxRetry dc false none = r
  obtain ⟨⟨_ | _, _ | e⟩ | e | p, dc'⟩ := r
  · rfl
  · rfl
  · cases answer <;> rfl
  · rfl
  · rfl
  · rfl

theorem linked_queryDB (srv : Server) {dc : DbCache} (h : Linked dc) (s : Option Stmt)
    (answer : List α) : Linked (queryDB srv dc s answer).2 := by
  rw [queryDB_snd]
  exact linked_loop srv false (fun dc => stmtQuery_snd srv dc s) h

theorem linked_dbQuery (srv : Server) {dc : DbCache} (h : Linked dc) (n : StmtName)
    (answer : List α) : Linked (dbQuery srv dc n answer).2 := by
  have hl := linked_loop srv true (fun dc => stmtQuery_snd srv dc (dc.stmt n)) h
  unfold dbQuery
  rw [dbQueryLoop_eq]
  generalize (dbLink srv true fun dc => stmtQuery srv dc (dc.stmt n)).loop maxRetry dc false none = r
    at hl ⊢
  obtain ⟨⟨_ | _, _ | e⟩ | e | p, dc'⟩ := r <;> exact hl

theorem linked_insertDB (srv : Server) {dc : DbCache} (h : Linked dc) (s : Option Stmt)
    (argc : Nat) : Linked (insertDB srv dc s argc).2 := by
  have hl := linked_loop srv false (fun dc => stmtExec_snd srv dc s argc) h
  unfold insertDB executeDB
  generalize (dbLink srv false fun dc => stmtExec srv dc s argc).loop maxRetry dc false none = r
    at hl ⊢
  obtain ⟨⟨_ | _, _ | e⟩ | e | p, dc'⟩ := r <;> exact hl

theorem linked_onRow {f : α → β} {r : Res Err α × DbCache} (h : Linked r.2) :
    Linked (onRow f r).2 := by
  obtain ⟨_ | _ | _, dc⟩ := r <;> exact h

theorem linked_lookupVia (tg ta : Int) {dc : DbCache} (h : Linked dc) (key : String)
    (cast : Val → Option β) {miss : DbCache → Res Err (β × Val) × DbCache}
    (hmiss : ∀ dc, Linked dc → Linked (miss dc).2) :
    Linked (lookupVia tg ta dc key cast miss).2 := by
  unfold lookupVia
  rcases dc.cache.get tg key with ⟨cache, _ | v⟩
  · have hm := hmiss { dc with cache := cache } (h.withCache cache dc.tick)
    simp only
    generalize miss { dc with cache := cache } = r at hm ⊢
    obtain ⟨⟨b, v⟩ | e | p, dc'⟩ := r
    · exact hm.withCache _ dc'.tick
    · exact hm
    · exact hm
  · have hc : Linked { dc with cache := cache } := h.withCache cache dc.tick
    simp only
    cases cast v <;> exact hc

theorem linked_interfaceMiss (srv : Server) (tb : Tables) (key : String) {dc : DbCache}
    (h : Linked dc) : Linked (interfaceMiss srv tb key dc).2 := by
  unfold interfaceMiss
  split
  · next p1 p2 _ _ =>
    have hq := linked_queryDB srv h (dc.stmt .selService) (selService tb p1)
    generalize queryDB srv dc (dc.stmt .selService) (selService tb p1) = r at hq ⊢
    obtain ⟨p | e | p, dc'⟩ := r
    · exact linked_onRow (linked_queryDB srv hq _ _)
    · exact hq
    · exact hq
  · exact h

/-- Every operation keeps statements and connection linked. -/
theorem linked_exec (srv : Server) (st : Session.Step) {dc : DbCache} (h : Linked dc) :
    Linked (st.exec srv dc) := by
  obtain ⟨op, tb, tg, ta⟩ := st
  cases op with
  | getInterface key =>
    exact linked_lookupVia tg ta h key _ fun dc h => linked_interfaceMiss srv tb key h
  | getApplication id token =>
    exact linked_lookupVia tg ta h _ _ fun dc h => linked_onRow (linked_queryDB srv h _ _)
  | validateRelation appID ifaceID =>
    exact linked_lookupVia tg ta h _ _ fun dc h => linked_onRow (linked_queryDB srv h _ _)
  | getVariable id =>
    exact linked_lookupVia tg ta h _ _ fun dc h => linked_dbQuery srv h _ _
  | insertStats => exact linked_insertDB srv h _ _
  | insertErrorStats => exact linked_insertDB srv h _ _

/-! ## Uses of a loop -/

/-- The next `n` calls of `conectDB` fail. -/
abbrev ConnectsFail (srv : Server) (n : Nat) (dc : DbCache) : Prop :=
  Link.AllFail (conectDB srv) n dc

/-- With a connection every use belongs to it; without one the statement is nil, and it is used
    unless the connects of all rounds before the last fail. -/
theorem loopUses_belong_iff (srv : Server) {call : DbCache → Res Err Unit × DbCache}
    (hcall : ∀ dc, ∃ t, (call dc).2 = { dc with tick := t }) {dc : DbCache} (h : Linked dc)
    (n : StmtName) : (∀ u ∈ loopUses srv call (dc.stmt n) dc, Belongs u) ↔
      dc.dbc.isSome ∨ ConnectsFail srv (maxRetry - 1) dc := by
  have hnil := Link.calls_eq_nil_iff (dbLink srv false call)
    (fun dc => (conectDB_dbc_cache srv dc).1) (maxRetry - 1) dc
  rcases h.link with ⟨hdbc, hstmt⟩ | ⟨c, hdbc, hstmt⟩
  · have hdown : (dbLink srv false call).up dc = false := by
      simp only [dbLink, hdbc]
      rfl
    have hiff := hnil hdown
    constructor
    · intro hall
      refine Or.inr (hiff.mp ?_)
      rw [List.eq_nil_iff_forall_not_mem]
      intro dc' hdc'
      obtain ⟨st, hst, -⟩ := hall (dc.stmt n, dc') (List.mem_map_of_mem hdc')
      rw [hstmt n] at hst
      cases hst
    · rintro (hsome | hfail) u hu
      · simp [hdbc] at hsome
      · have hempty : (dbLink srv false call).calls maxRetry dc = [] := hiff.mpr hfail
        rw [loopUses, hempty] at hu
        cases hu
  · refine ⟨fun _ => Or.inl (by simp [hdbc]), fun _ u hu => ?_⟩
    obtain ⟨dc', hdc', rfl⟩ := List.mem_map.mp hu
    -- calls change nothing but the request counter
    have hsame := Link.mem_calls (dbLink srv false call) rfl
      (fun (dc' : DbCache) (hP : dc'.dbc = dc.dbc ∧ dc'.closedStmts = dc.closedStmts) => by
        simp only [dbLink, hP.1, hdbc]
        rfl)
      (fun dc' hP => by
        obtain ⟨t, ht⟩ := hcall dc'
        show ((call dc').2).dbc = _ ∧ ((call dc').2).closedStmts = _
        rw [ht]
        exact hP)
      maxRetry dc ⟨rfl, rfl⟩ dc' hdc'
    refine ⟨⟨n, c⟩, (hstmt n).1, ?_, ?_⟩
    · rw [hsame.2]
      exact (hstmt n).2
    · rw [hsame.1]
      exact hdbc

theorem queryUses_belong_iff (srv : Server) {dc : DbCache} (h : Linked dc) (n : StmtName) :
    (∀ u ∈ queryUses srv dc (dc.stmt n), Belongs u) ↔
      dc.dbc.isSome ∨ ConnectsFail srv (maxRetry - 1) dc :=
  loopUses_belong_iff srv (fun dc' => stmtQuery_snd srv dc' (dc.stmt n)) h n

theorem executeUses_belong_iff (srv : Server) {dc : DbCache} (h : Linked dc) (n : StmtName)
    (argc : Nat) : (∀ u ∈ executeUses srv dc (dc.stmt n) argc, Belongs u) ↔
      dc.dbc.isSome ∨ ConnectsFail srv (maxRetry - 1) dc :=
  loopUses_belong_iff srv (fun dc' => stmtExec_snd srv dc' (dc.stmt n) argc) h n

/-- `queryDB` keeps a connection that is there. -/
theorem queryDB_dbc (srv : Server) {dc : DbCache} (h : dc.dbc.isSome) (s : Option Stmt)
    (answer : List α) : (queryDB srv dc s answer).2.dbc.isSome := by
  rw [queryDB_snd]
  refine Link.loop_keeps (P := fun dc => dc.dbc.isSome) _ (fun dc h => ?_) (fun dc h hor => ?_)
    maxRetry dc false none h
  · obtain ⟨t, ht⟩ := stmtQuery_snd srv dc s
    show ((stmtQuery srv dc s).2).dbc.isSome
    rwa [ht]
  · rcases hor with hdown | hredial
    · exact absurd h (by simpa [dbLink] using hdown)
    · cases hredial

/-- A nil statement yields no row. -/
theorem queryDB_nil (srv : Server) (dc : DbCache) (answer : List α) (r : α) :
    (queryDB srv dc none answer).1 ≠ .ok r := by
  have hno := Link.loop_not_served (dbLink srv false fun dc => stmtQuery srv dc none)
    (fun dc => nofun) maxRetry dc none
  unfold queryDB
  rw [queryLoop_eq]
  generalize (dbLink srv false fun dc => stmtQuery srv dc none).loop maxRetry dc false none = x
    at hno ⊢
  obtain ⟨⟨served, err⟩ | e | p, dc'⟩ := x
  · obtain rfl : served = false := hno _ rfl
    cases err <;> exact nofun
  · exact nofun
  · exact nofun

/-- The second query of `getInterface` is made on the connection of the first. -/
theorem interfaceUses_belong_iff (srv : Server) (tb : Tables) (key : String) {dc : DbCache}
    (h : Linked dc) (hkey : ¬ (Go.split key '/').length < 3) :
    (∀ u ∈ interfaceUses srv tb key dc, Belongs u) ↔
      dc.dbc.isSome ∨ ConnectsFail srv (maxRetry - 1) dc := by
  obtain ⟨p0, p1, p2, ps, hsplit⟩ : ∃ p0 p1 p2 ps, Go.split key '/' = p0 :: p1 :: p2 :: ps := by
    generalize Go.split key '/' = l at hkey
    match l with
    | [] | [_] | [_, _] => simp at hkey
    | p0 :: p1 :: p2 :: ps => exact ⟨p0, p1, p2, ps, rfl⟩
  have hfirst := queryUses_belong_iff srv h .selService
  simp only [interfaceUses, hsplit, List.forall_mem_append, hfirst]
  refine ⟨fun hall => hall.1, fun hready => ⟨hready, ?_⟩⟩
  have hlinked := linked_queryDB srv h (dc.stmt .selService) (selService tb p1)
  rcases h.link with ⟨-, hstmt⟩ | ⟨c, hdbc, -⟩
  · have hno := queryDB_nil srv dc (selService tb p1)
    rw [← hstmt .selService] at hno
    generalize queryDB srv dc (dc.stmt .selService) (selService tb p1) = r at hno ⊢
    obtain ⟨p | e | p, dc'⟩ := r
    · exact absurd rfl (hno p)
    · exact nofun
    · exact nofun
  · have hsome := queryDB_dbc srv (Option.isSome_of_eq_some hdbc) (dc.stmt .selService)
      (selService tb p1)
    generalize queryDB srv dc (dc.stmt .selService) (selService tb p1) = r at hlinked hsome ⊢
    obtain ⟨p | e | p, dc'⟩ := r
    · exact (queryUses_belong_iff srv hlinked .selIface).mpr (Or.inl hsome)
    · exact nofun
    · exact nofun

/-! ## Runs -/

/-- When the operation comes to `queryDB` or `executeDB` there is a connection, or the next four
    connects fail, so that none of the rounds finds one. -/
def Session.Step.Ready (srv : Server) (st : Session.Step) (dc : DbCache) : Prop :=
  ∀ dc', st.asked dc = some dc' → dc'.dbc.isSome ∨ ConnectsFail srv (maxRetry - 1) dc'

/-- Every step of the run is ready in the state before it. -/
def ReadyRun (srv : Server) : List Session.Step → DbCache → Prop
  | [], _ => True
  | st :: steps, dc => st.Ready srv dc ∧ ReadyRun srv steps (st.exec srv dc)

theorem linked_missed {dc dc' : DbCache} (h : Linked dc) {tg : Int} {key : String}
    (hm : missed dc tg key = some dc') : Linked dc' := by
  unfold missed at hm
  split at hm
  · cases hm
  · exact Option.some.inj hm ▸ h.withCache _ dc.tick

theorem linked_asked {st : Session.Step} {dc dc' : DbCache} (h : Linked dc)
    (hasked : st.asked dc = some dc') : Linked dc' := by
  unfold Session.Step.asked at hasked
  split at hasked
  · split at hasked
    · cases hasked
    · exact linked_missed h hasked
  · exact linked_missed h hasked
  · exact linked_missed h hasked
  · cases hasked
  · exact Option.some.inj hasked ▸ h
  · exact Option.some.inj hasked ▸ h

theorem usesFrom_belong_iff (srv : Server) (st : Session.Step) {dc dc' : DbCache}
    (hasked : st.asked dc = some dc') (h : Linked dc') :
    (∀ u ∈ st.usesFrom srv dc', Belongs u) ↔
      dc'.dbc.isSome ∨ ConnectsFail srv (maxRetry - 1) dc' := by
  obtain ⟨op, tb, tg, ta⟩ := st
  cases op with
  | getInterface key =>
    refine interfaceUses_belong_iff srv tb key h fun hshort => ?_
    simp [Session.Step.asked, hshort] at hasked
  | getApplication id token => exact queryUses_belong_iff srv h .selApp
  | validateRelation appID ifaceID => exact queryUses_belong_iff srv h .selRelation
  | getVariable id => cases hasked
  | insertStats => exact executeUses_belong_iff srv h .instStats 7
  | insertErrorStats => exact executeUses_belong_iff srv h .instErrorStats 4

theorem step_uses_belong_iff (srv : Server) (st : Session.Step) {dc : DbCache} (h : Linked dc) :
    (∀ u ∈ st.uses srv dc, Belongs u) ↔ st.Ready srv dc := by
  unfold Session.Step.uses Session.Step.Ready
  cases hasked : st.asked dc with
  | none => exact ⟨fun _ => nofun, fun _ => nofun⟩
  | some dc' => simpa using usesFrom_belong_iff srv st hasked (linked_asked h hasked)

theorem run_uses_belong_iff (srv : Server) (steps : List Session.Step) {dc : DbCache}
    (h : Linked dc) : (∀ u ∈ runUses srv steps dc, Belongs u) ↔ ReadyRun srv steps dc := by
  induction steps generalizing dc with
  | nil => exact ⟨fun _ => trivial, fun _ => nofun⟩
  | cons st steps ih =>
    simp only [runUses, ReadyRun, List.forall_mem_append, step_uses_belong_iff srv st h,
      ih (linked_exec srv st h)]

/-- In a run from `Init`, every statement used belongs to the connection that is open, exactly when
    every operation that comes to `queryDB` or `executeDB` finds a connection, or comes to none in
    its first four rounds. -/
theorem uses_belong_iff (srv : Server) (timeout : Int) (steps : List Session.Step) :
    (∀ u ∈ runUses srv steps (initDC srv timeout), Belongs u) ↔
      ReadyRun srv steps (initDC srv timeout) :=
  run_uses_belong_iff srv steps (linked_conectDB srv (linked_new timeout))

/-- The server is away for the query and the five connects of the first operation. -/
def backAt14 : Server := fun n => n < 8 || 14 ≤ n

/-- `getVariable` fails and leaves no connection; `getApplication` reads the nil statement, connects
    and calls `Query` on nil. -/
theorem nil_statement_used : ¬ ∀ u ∈ runUses backAt14
    [⟨.getVariable 1, noTables, 0, 0⟩, ⟨.getApplication 1 "token", noTables, 0, 0⟩]
    (initDC backAt14 60), Belongs u := by
  intro hall
  obtain ⟨-, hready, -⟩ := (run_uses_belong_iff backAt14 _
    (linked_conectDB backAt14 (linked_new 60))).mp hall
  rcases hready _ rfl with hsome | hfail
  · exact absurd hsome (by decide)
  · exact hfail.1 rfl

end Doodle.Repeater
