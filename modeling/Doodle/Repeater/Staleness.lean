/-
  How old an answer of the gateway's cache can be.

  A run is any sequence of changes of the tables, of calls of the four cached lookups and of the
  clock moving on. The clock counts nanoseconds and does not go back; the cache reads whole seconds
  of it (`unix`). Calls are made one at a time, so the tables and the clock stand still during a
  call, and the server answers every request.

  `Kept` says of every cache entry that its value was in the tables at a moment of the run not
  before the entry's age, under a key of its own kind. It is kept by every step (`kept_step`) and so
  by every run (`kept_run`).

  * `staleness_bounded`: after every run, `getInterface` and `getVariable` answer what they would
    have answered without the cache at a moment not longer ago than the timeout, and no value under
    a key that a lookup asks for has another type than the lookup asserts.
-/
import Doodle.Repeater.Gateway

namespace Doodle.Repeater.Staleness

open Doodle.Go Doodle.Crab Doodle.Lib

/-! ## Runs -/

/-- A request path: empty, or from a slash or a star on. -/
structure ReqPath where
  text : String
  shape : tag text = none ∨ tag text = some '/' ∨ tag text = some '*'

/-- What happens: the tables change, the clock moves on, or a lookup is called. -/
inductive Event where
  | change (tables : Tables)
  | advance (nanos : Nat)
  | interface (path : ReqPath)
  | vars (id : Int)
  | application (id : Int) (token : String)
  | relation (appID ifaceID : Int)

/-- The clock, the tables and the gateway. -/
structure World where
  now : Int
  tables : Tables
  dc : DbCache

/-- `time.Now().Unix()` -/
def unix (now : Int) : Int := now / 1000000000

/-- `timeout` seconds, in the unit of the clock. -/
def seconds (timeout : Int) : Int := timeout * 1000000000

section Model

variable (srv : Server)

def callInterface (w : World) (path : String) : Res Err Interface × DbCache :=
  getInterface srv w.tables (unix w.now) (unix w.now) w.dc path

def callVariable (w : World) (id : Int) : Res Err (List Variable) × DbCache :=
  getVariable srv w.tables (unix w.now) (unix w.now) w.dc id

def callApplication (w : World) (id : Int) (token : String) : Res Err Application × DbCache :=
  getApplication srv w.tables (unix w.now) (unix w.now) w.dc id token

def callRelation (w : World) (appID ifaceID : Int) : Res Err Unit × DbCache :=
  validateRelation srv w.tables (unix w.now) (unix w.now) w.dc appID ifaceID

def step (w : World) : Event → World
  | .change tables => { w with tables := tables }
  | .advance nanos => { w with now := w.now + nanos }
  | .interface path => { w with dc := (callInterface srv w path.text).2 }
  | .vars id => { w with dc := (callVariable srv w id).2 }
  | .application id token => { w with dc := (callApplication srv w id token).2 }
  | .relation appID ifaceID => { w with dc := (callRelation srv w appID ifaceID).2 }

/-- The world after the events of a run, oldest first. -/
def run (w : World) (events : List Event) : World := events.foldl (step srv) w

/-- The gateway just started. -/
def start (timeout now : Int) (tables : Tables) : World := ⟨now, tables, initDC srv timeout⟩

/-- `getInterface` without a cache: on a gateway just started. -/
def uncachedInterface (tables : Tables) (path : String) : Res Err Interface :=
  (getInterface srv tables 0 0 (initDC srv 0) path).1

/-- `getVariable` without a cache. -/
def uncachedVariable (tables : Tables) (id : Int) : Res Err (List Variable) :=
  (getVariable srv tables 0 0 (initDC srv 0) id).1

end Model

/-- `m` is at most `timeout` seconds before `w`; a negative timeout counts as none at all. -/
def Recent (timeout : Int) (m w : World) : Prop :=
  w.now - seconds (max timeout 0) ≤ m.now ∧ m.now ≤ w.now

/-- What is asked of the world after a run. -/
structure Bounded (srv : Server) (timeout : Int) (w₀ : World) (events : List Event) : Prop where
  interface : ∀ p : ReqPath, ∃ before, before <+: events ∧
    Recent timeout (run srv w₀ before) (run srv w₀ events) ∧
    (callInterface srv (run srv w₀ events) p.text).1 =
      uncachedInterface srv (run srv w₀ before).tables p.text
  vars : ∀ id, ∃ before, before <+: events ∧
    Recent timeout (run srv w₀ before) (run srv w₀ events) ∧
    (callVariable srv (run srv w₀ events) id).1 =
      uncachedVariable srv (run srv w₀ before).tables id
  interfaceType : ∀ (p : ReqPath) v,
    ((run srv w₀ events).dc.cache.get (unix (run srv w₀ events).now) p.text).2 = some v →
      v.iface?.isSome
  varsType : ∀ id v,
    ((run srv w₀ events).dc.cache.get (unix (run srv w₀ events).now) (varKey id)).2 = some v →
      v.vars?.isSome
  applicationType : ∀ id v,
    ((run srv w₀ events).dc.cache.get (unix (run srv w₀ events).now) (appKey id)).2 = some v →
      v.app?.isSome

/-! ## Where a cached value comes from -/

/-- Who put a value under a key, while the tables were `tb`. -/
def Stored (tb : Tables) (key : String) : Val → Prop
  | .iface i => (∃ p : ReqPath, key = p.text) ∧ fetchInterface tb key = some i
  | .app _ => ∃ id, key = appKey id
  | .relation _ => ∃ a i, key = relationKey a i
  | .vars vs => ∃ id, key = varKey id ∧ scanVars (selVar tb id) = some vs

/-- What the keys of a kind of value start with. -/
def tags : Val → List (Option Char)
  | .iface _ => [none, some '/', some '*']
  | .app _ => [some '\x01']
  | .relation _ => [some '\x03']
  | .vars _ => [some '\x02']

theorem ReqPath.tag_mem (p : ReqPath) : tag p.text ∈ [none, some '/', some '*'] := by
  simpa using p.shape

theorem Stored.tag_mem {tb : Tables} {key : String} {v : Val} (h : Stored tb key v) :
    tag key ∈ tags v := by
  cases v with
  | iface i =>
    obtain ⟨⟨p, rfl⟩, -⟩ := h
    exact p.tag_mem
  | app a =>
    obtain ⟨id, rfl⟩ := h
    rw [tag_appKey]
    exact List.mem_singleton_self _
  | relation r =>
    obtain ⟨a, i, rfl⟩ := h
    rw [tag_relationKey]
    exact List.mem_singleton_self _
  | vars vs =>
    obtain ⟨id, rfl, -⟩ := h
    rw [tag_varKey]
    exact List.mem_singleton_self _

/-- A value of another kind is not under the key. -/
theorem Stored.absurd_tag {tb : Tables} {key : String} {v : Val} (h : Stored tb key v)
    {ts : List (Option Char)} (hk : tag key ∈ ts) (hdis : ∀ t ∈ ts, t ∉ tags v) : False :=
  hdis _ hk h.tag_mem

theorem Stored.of_path {tb : Tables} {p : ReqPath} {v : Val} (h : Stored tb p.text v) :
    ∃ i, v = .iface i ∧ fetchInterface tb p.text = some i := by
  cases v with
  | iface i => exact ⟨i, rfl, h.2⟩
  | app a => exact (h.absurd_tag p.tag_mem (by simp [tags])).elim
  | relation r => exact (h.absurd_tag p.tag_mem (by simp [tags])).elim
  | vars vs => exact (h.absurd_tag p.tag_mem (by simp [tags])).elim

theorem varKey_inj {a b : Int} (h : varKey a = varKey b) : a = b := by
  have hs : toString a = toString b := by
    simpa [varKey, String.append_right_inj] using h
  exact repr_inj hs

theorem Stored.of_varKey {tb : Tables} {id : Int} {v : Val} (h : Stored tb (varKey id) v) :
    ∃ vs, v = .vars vs ∧ scanVars (selVar tb id) = some vs := by
  have hk : tag (varKey id) ∈ [some '\x02'] := List.mem_singleton.mpr (tag_varKey id)
  cases v with
  | vars vs =>
    obtain ⟨id', hid, hvs⟩ := h
    exact ⟨vs, rfl, varKey_inj hid ▸ hvs⟩
  | iface i => exact (h.absurd_tag hk (by simp [tags])).elim
  | app a => exact (h.absurd_tag hk (by simp [tags])).elim
  | relation r => exact (h.absurd_tag hk (by simp [tags])).elim

theorem Stored.of_appKey {tb : Tables} {id : Int} {v : Val} (h : Stored tb (appKey id) v) :
    ∃ a, v = .app a := by
  have hk : tag (appKey id) ∈ [some '\x01'] := List.mem_singleton.mpr (tag_appKey id)
  cases v with
  | app a => exact ⟨a, rfl⟩
  | iface i => exact (h.absurd_tag hk (by simp [tags])).elim
  | vars vs => exact (h.absurd_tag hk (by simp [tags])).elim
  | relation r => exact (h.absurd_tag hk (by simp [tags])).elim

/-- An entry's value was in the tables at a moment of `past`, not before the entry's age. -/
def Origin (past : World → Prop) (now : Int) (e : CacheEntry Val) : Prop :=
  ∃ m, past m ∧ e.last ≤ unix m.now ∧ m.now ≤ now ∧ Stored m.tables e.key e.val

/-- A live connection, and a cache whose entries were all in the tables at some moment. -/
structure Kept (timeout : Int) (past : World → Prop) (w : World) : Prop where
  live : Live w.dc
  timeout : w.dc.cache.timeout = timeout
  aged : w.dc.cache.Aged (unix w.now)
  origin : ∀ e ∈ w.dc.cache.ll, Origin past w.now e

theorem unix_mono {a b : Int} (h : a ≤ b) : unix a ≤ unix b := by
  unfold unix
  omega

/-- An entry that outlives eviction was added less than the timeout ago, to the nanosecond. -/
theorem recent_of_lt {timeout last : Int} {m w : World} (hlast : unix w.now - timeout < last)
    (hm : last ≤ unix m.now) (hle : m.now ≤ w.now) : Recent timeout m w := by
  unfold unix at hlast hm
  unfold Recent seconds
  omega

section Lookups

variable {timeout : Int} {past : World → Prop} {w : World}

/-- More moments, a later clock and other tables. -/
theorem Kept.mono (h : Kept timeout past w) {past' : World → Prop} (hp : ∀ m, past m → past' m)
    {now : Int} (hle : w.now ≤ now) (tables : Tables) :
    Kept timeout past' { w with now := now, tables := tables } := by
  refine ⟨h.live, h.timeout, h.aged.mono (unix_mono hle), fun e he => ?_⟩
  obtain ⟨m, hm, hlast, hnow, hstored⟩ := h.origin e he
  exact ⟨m, hp m hm, hlast, le_trans hnow hle, hstored⟩

/-- What the cache still has under a key is from a recent moment. -/
theorem Kept.of_get (h : Kept timeout past w) {key : String} {v : Val}
    (hv : (w.dc.cache.evict (unix w.now)).lookup key = some v) :
    ∃ m, past m ∧ Recent timeout m w ∧ Stored m.tables key v := by
  obtain ⟨e, he, rfl, rfl⟩ := exists_mem_of_lookup hv
  obtain ⟨m, hm, hlast, hnow, hstored⟩ := h.origin e (mem_of_mem_evict he)
  have hlt := h.aged.lt_of_mem_evict he
  rw [h.timeout] at hlt
  exact ⟨m, hm, recent_of_lt hlt hlast hnow, hstored⟩

theorem Kept.evict (h : Kept timeout past w) (n : Nat) :
    Kept timeout past { w with dc := { w.dc with
      cache := w.dc.cache.evict (unix w.now), tick := n } } :=
  ⟨h.live, h.timeout, h.aged.evict _, fun e he => h.origin e (mem_of_mem_evict he)⟩

/-- One lookup: the state after it is kept, and the answer is a value stored at a recent moment or
    what the miss found now. -/
theorem Kept.lookupVia {β : Type} (h : Kept timeout past w) (hnow : past w) (key : String)
    (cast : Val → Option β) (miss : DbCache → Res Err (β × Val) × DbCache)
    (found : Option (β × Val)) (e : Err)
    (hm : ∀ dc, Live dc → ∃ n, miss dc = (orErr found e, { dc with tick := n }))
    (hb : ∀ b v, found = some (b, v) → Stored w.tables key v) :
    Kept timeout past
        { w with dc := (lookupVia (unix w.now) (unix w.now) w.dc key cast miss).2 } ∧
      ((∃ m v, past m ∧ Recent timeout m w ∧ Stored m.tables key v ∧
          (lookupVia (unix w.now) (unix w.now) w.dc key cast miss).1 =
            match cast v with | some b => Res.ok b | none => .panic "interface conversion") ∨
        (lookupVia (unix w.now) (unix w.now) w.dc key cast miss).1 =
          orErr (found.map Prod.fst) e) := by
  obtain ⟨n, hm⟩ := hm _ (h.evict w.dc.tick).live
  rcases lookupVia_cases (unix w.now) (unix w.now) w.dc key cast miss found e n hm with
    ⟨v, hl, he⟩ | ⟨hl, b, v, hf, he⟩ | ⟨hl, hf, he⟩
  · rw [he]
    obtain ⟨m, hpast, hrecent, hstored⟩ := h.of_get hl
    exact ⟨h.evict w.dc.tick, Or.inl ⟨m, v, hpast, hrecent, hstored, rfl⟩⟩
  · rw [he]
    refine ⟨⟨h.live, ?_, (h.aged.evict _).add hl v, fun e' he' => ?_⟩, Or.inr (by rw [hf]; rfl)⟩
    · simp only [Cache.add, hl]
      exact h.timeout
    · have hmem : e' ∈ ((w.dc.cache.evict (unix w.now)).add (unix w.now) key v).ll := he'
      rw [ll_add_of_lookup_eq_none hl] at hmem
      rcases List.mem_cons.mp hmem with rfl | hmem
      · exact ⟨w, hnow, le_refl _, le_refl _, hb b v hf⟩
      · exact h.origin e' (mem_of_mem_evict hmem)
  · rw [he]
    exact ⟨h.evict n, Or.inr (by rw [hf]; rfl)⟩

/-- A live connection with nothing in the cache. -/
theorem kept_initDC {srv : Server} (hs : srv.Reliable) (timeout now : Int) (tables : Tables)
    (past : World → Prop) : Kept timeout past (start srv timeout now tables) := by
  obtain ⟨hlive, hcache⟩ := initDC_spec srv hs timeout
  have hll : (start srv timeout now tables).dc.cache.ll = [] := congrArg Cache.ll hcache
  refine ⟨hlive, congrArg Cache.timeout hcache, ⟨?_, ?_⟩, ?_⟩
  · rw [hll]
    exact List.Pairwise.nil
  · rw [hll]
    exact fun e he => absurd he List.not_mem_nil
  · rw [hll]
    exact fun e he => absurd he List.not_mem_nil

variable {srv : Server} (hs : srv.Reliable)
include hs

theorem callInterface_spec (h : Kept timeout past w) (hnow : past w) (p : ReqPath) :
    Kept timeout past { w with dc := (callInterface srv w p.text).2 } ∧
      ∃ m, (past m ∧ Recent timeout m w ∨ m = w) ∧ (callInterface srv w p.text).1 =
        orErr (fetchInterface m.tables p.text) (missErr p.text) := by
  obtain ⟨hkept, hans⟩ := h.lookupVia hnow p.text Val.iface? (interfaceMiss srv w.tables p.text)
    ((fetchInterface w.tables p.text).map fun i => (i, Val.iface i)) (missErr p.text)
    (fun dc hl => interfaceMiss_eq srv hs w.tables p.text dc hl) (by
      intro b v hf
      obtain ⟨i, hi, hv⟩ := Option.map_eq_some_iff.mp hf
      obtain ⟨rfl, rfl⟩ := Prod.mk.inj hv
      exact ⟨⟨p, rfl⟩, hi⟩)
  refine ⟨hkept, ?_⟩
  rcases hans with ⟨m, v, hpast, hrecent, hstored, ha⟩ | ha
  · obtain ⟨i, rfl, hi⟩ := hstored.of_path
    exact ⟨m, Or.inl ⟨hpast, hrecent⟩, by rw [hi]; exact ha⟩
  · refine ⟨w, Or.inr rfl, ha.trans ?_⟩
    rw [Option.map_map]
    exact congrArg (fun o => orErr o _) (by cases fetchInterface w.tables p.text <;> rfl)

theorem callVariable_spec (h : Kept timeout past w) (hnow : past w) (id : Int) :
    Kept timeout past { w with dc := (callVariable srv w id).2 } ∧
      ∃ m, (past m ∧ Recent timeout m w ∨ m = w) ∧
        (callVariable srv w id).1 = orErr (scanVars (selVar m.tables id)) scanErr := by
  obtain ⟨hkept, hans⟩ := h.lookupVia hnow (varKey id) Val.vars? (variableMiss srv w.tables id)
    ((scanVars (selVar w.tables id)).map fun vs => (vs, Val.vars vs)) scanErr
    (fun dc hl => ⟨dc.tick + 1, variableMiss_live srv hs w.tables id dc hl⟩) (by
      intro b v hf
      obtain ⟨vs, hvs, hv⟩ := Option.map_eq_some_iff.mp hf
      obtain ⟨-, rfl⟩ := Prod.mk.inj hv
      exact ⟨id, rfl, hvs⟩)
  refine ⟨hkept, ?_⟩
  rcases hans with ⟨m, v, hpast, hrecent, hstored, ha⟩ | ha
  · obtain ⟨vs, rfl, hvs⟩ := hstored.of_varKey
    exact ⟨m, Or.inl ⟨hpast, hrecent⟩, by rw [hvs]; exact ha⟩
  · refine ⟨w, Or.inr rfl, ha.trans ?_⟩
    rw [Option.map_map]
    exact congrArg (fun o => orErr o _) (by cases scanVars (selVar w.tables id) <;> rfl)

theorem kept_callApplication (h : Kept timeout past w) (hnow : past w) (id : Int)
    (token : String) : Kept timeout past { w with dc := (callApplication srv w id token).2 } := by
  refine (h.lookupVia hnow (appKey id) Val.app?
    (fun dc => onRow (fun r => (⟨id, r.1, r.2⟩, Val.app ⟨id, r.1, r.2⟩))
      (queryDB srv dc (dc.stmt .selApp) (selApp w.tables id token)))
    ((selApp w.tables id token).head?.map fun r => (⟨id, r.1, r.2⟩, Val.app ⟨id, r.1, r.2⟩))
    .notFound (fun dc hl => ⟨_, by rw [queryDB_live srv hs dc hl, onRow_orErr]⟩) ?_).1
  intro b v hf
  obtain ⟨r, -, hr⟩ := Option.map_eq_some_iff.mp hf
  obtain ⟨-, rfl⟩ := Prod.mk.inj hr
  exact ⟨id, rfl⟩

theorem kept_callRelation (h : Kept timeout past w) (hnow : past w) (appID ifaceID : Int) :
    Kept timeout past { w with dc := (callRelation srv w appID ifaceID).2 } := by
  refine (h.lookupVia hnow (relationKey appID ifaceID) (fun _ => some ())
    (fun dc => onRow (fun id => ((), Val.relation id))
      (queryDB srv dc (dc.stmt .selRelation) (selRelation w.tables appID ifaceID)))
    ((selRelation w.tables appID ifaceID).head?.map fun id => ((), Val.relation id))
    .notFound (fun dc hl => ⟨_, by rw [queryDB_live srv hs dc hl, onRow_orErr]⟩) ?_).1
  intro b v hf
  obtain ⟨r, -, hr⟩ := Option.map_eq_some_iff.mp hf
  obtain ⟨-, rfl⟩ := Prod.mk.inj hr
  exact ⟨appID, ifaceID, rfl⟩

theorem kept_step (h : Kept timeout past w) (hnow : past w) (e : Event) :
    Kept timeout past (step srv w e) := by
  cases e with
  | change tables => exact h.mono (fun _ hm => hm) (le_refl _) tables
  | advance nanos => exact h.mono (fun _ hm => hm) (by simp) w.tables
  | interface path => exact (callInterface_spec hs h hnow path).1
  | vars id => exact (callVariable_spec hs h hnow id).1
  | application id token => exact kept_callApplication hs h hnow id token
  | relation appID ifaceID => exact kept_callRelation hs h hnow appID ifaceID

end Lookups

/-! ## Every run -/

/-- A world the run passed through. -/
def Passed (srv : Server) (w₀ : World) (events : List Event) (m : World) : Prop :=
  ∃ before, before <+: events ∧ m = run srv w₀ before

theorem passed_self (srv : Server) (w₀ : World) (events : List Event) :
    Passed srv w₀ events (run srv w₀ events) := ⟨events, List.prefix_rfl, rfl⟩

theorem kept_run {srv : Server} (hs : srv.Reliable) {timeout : Int} {w₀ : World}
    (h : ∀ past, Kept timeout past w₀) (events : List Event) :
    Kept timeout (Passed srv w₀ events) (run srv w₀ events) := by
  induction events using List.reverseRecOn with
  | nil => exact h _
  | append_singleton events e ih =>
    have hstep := kept_step hs ih (passed_self srv w₀ events) e
    have hrun : run srv w₀ (events ++ [e]) = step srv (run srv w₀ events) e := by
      unfold run
      rw [List.foldl_append, List.foldl_cons, List.foldl_nil]
    rw [hrun]
    refine hstep.mono ?_ (le_refl _) _
    rintro m ⟨before, hb, rfl⟩
    exact ⟨before, hb.trans (List.prefix_append events [e]), rfl⟩

theorem recent_self (timeout : Int) (w : World) : Recent timeout w w := by
  unfold Recent seconds
  omega

section Uncached

variable {srv : Server} (hs : srv.Reliable)
include hs

theorem uncachedInterface_eq (tables : Tables) (p : ReqPath) :
    uncachedInterface srv tables p.text =
      orErr (fetchInterface tables p.text) (missErr p.text) := by
  obtain ⟨-, m, hm, hans⟩ := callInterface_spec hs
    (kept_initDC hs 0 0 tables (fun w => w = start srv 0 0 tables)) rfl p
  have hmw : m = start srv 0 0 tables := by
    rcases hm with ⟨hm, -⟩ | hm
    · exact hm
    · exact hm
  rw [hmw] at hans
  exact hans

theorem uncachedVariable_eq (tables : Tables) (id : Int) :
    uncachedVariable srv tables id = orErr (scanVars (selVar tables id)) scanErr := by
  obtain ⟨-, m, hm, hans⟩ := callVariable_spec hs
    (kept_initDC hs 0 0 tables (fun w => w = start srv 0 0 tables)) rfl id
  have hmw : m = start srv 0 0 tables := by
    rcases hm with ⟨hm, -⟩ | hm
    · exact hm
    · exact hm
  rw [hmw] at hans
  exact hans

end Uncached

/-- After every run an answer of `getInterface` or `getVariable` is what the lookup without the
    cache would have given at a moment at most `timeout` seconds ago, and every value the cache
    still has under the key of a lookup has the type the lookup asserts. -/
theorem staleness_bounded {srv : Server} (hs : srv.Reliable) (timeout now : Int) (tables : Tables)
    (events : List Event) : Bounded srv timeout (start srv timeout now tables) events := by
  have hkept := kept_run hs (kept_initDC hs timeout now tables) events
  have hnow := passed_self srv (start srv timeout now tables) events
  constructor
  · intro p
    obtain ⟨-, m, hm, hans⟩ := callInterface_spec hs hkept hnow p
    rcases hm with ⟨⟨before, hb, rfl⟩, hrecent⟩ | rfl
    · exact ⟨before, hb, hrecent, by rw [hans, uncachedInterface_eq hs]⟩
    · exact ⟨events, List.prefix_rfl, recent_self _ _, by rw [hans, uncachedInterface_eq hs]⟩
  · intro id
    obtain ⟨-, m, hm, hans⟩ := callVariable_spec hs hkept hnow id
    rcases hm with ⟨⟨before, hb, rfl⟩, hrecent⟩ | rfl
    · exact ⟨before, hb, hrecent, by rw [hans, uncachedVariable_eq hs]⟩
    · exact ⟨events, List.prefix_rfl, recent_self _ _, by rw [hans, uncachedVariable_eq hs]⟩
  · intro p v hv
    obtain ⟨m, -, -, hstored⟩ := hkept.of_get hv
    obtain ⟨i, rfl, -⟩ := hstored.of_path
    rfl
  · intro id v hv
    obtain ⟨m, -, -, hstored⟩ := hkept.of_get hv
    obtain ⟨vs, rfl, -⟩ := hstored.of_varKey
    rfl
  · intro id v hv
    obtain ⟨m, -, -, hstored⟩ := hkept.of_get hv
    obtain ⟨a, rfl⟩ := hstored.of_appKey
    rfl

/-- One interface, of the service `s`. -/
def oneInterface (backend : String) : Tables :=
  ⟨id, [⟨1, "s", false, 0⟩], [⟨7, 1, "p", 0, backend, "e"⟩], [], [], []⟩

def shortPath : ReqPath := ⟨"/s/p", by decide⟩

/-- The interface is asked for, its backend changes, and 59 seconds pass. -/
def changedRun : List Event :=
  [.interface shortPath, .change (oneInterface "new"), .advance 59000000000]

/-- The old backend is still answered, and within the bound. -/
theorem staleness_bounded_changedRun :
    let srv : Server := fun _ => true
    let w₀ := start srv 60 0 (oneInterface "old")
    (callInterface srv (run srv w₀ changedRun) "/s/p").1 =
        .ok ⟨7, 0, "old", "e", "p", ⟨1, false, 0⟩⟩ ∧
      Bounded srv 60 w₀ changedRun :=
  ⟨by decide +kernel, staleness_bounded (fun _ => rfl) 60 0 (oneInterface "old") changedRun⟩

end Doodle.Repeater.Staleness
