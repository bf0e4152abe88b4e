/-
  `statsCache` of `repeater/stats.go`: calls are counted for each application of each interface,
  until `entrys` takes the counts away.

  Go leaves the order of a range open, so a drain has an order of the interfaces and, for each, one
  of its applications. `Count` has no bound here; it takes 2^63 calls between two drains to exceed
  an `int`. `Time` wraps, as a sum of int64 does. A lock makes every method a step of its own.

  * `total_success`: a call adds its share to the pair of its interface and application only.
  * `stats_conserved`: after any calls and drains, what was drained and what is still cached add up
    to what was called, for each pair.
-/
import Doodle.Lib.RangeDelete
import Doodle.Lib.Runs
import Mathlib.Algebra.BigOperators.Group.List.Basic
import Mathlib.Data.BitVec

namespace Doodle.Repeater.Stats

open Doodle.Lib

/-! ## The cache -/

/-- `errorEntry`; a time is in nanoseconds. -/
structure ErrorEntry where
  session : String
  app : Int
  iface : Int
  info : String
  time : Int
  deriving DecidableEq, Repr

/-- The entry of a call that failed at the time `now`; eight hours are added. -/
def failedEntry (id : String) (app iface : Int) (log : String) (now : Int) : ErrorEntry :=
  ⟨id, app, iface, log, now + 8 * 3600 * 1000000000⟩

/-- `entry` -/
structure Entry where
  app : Int
  iface : Int
  count : Nat
  time : BitVec 64
  deriving DecidableEq, Repr

/-- `e.Count++` and `e.Time += tm` -/
def Entry.counted (e : Entry) (tm : BitVec 64) : Entry :=
  { e with count := e.count + 1, time := e.time + tm }

/-- `ifaceEntry`: by the application. -/
abbrev Apps := AList fun _ : Int => Entry

def valuesOf (ie : Apps) : List Entry := ie.entries.map fun e => e.2

structure StatsCache where
  /-- by the interface -/
  ies : AList fun _ : Int => Apps
  ees : List ErrorEntry

def newStatsCache : StatsCache := ⟨∅, []⟩

namespace StatsCache

variable (s : StatsCache)

def failed (id : String) (app iface : Int) (log : String) (now : Int) : StatsCache :=
  { s with ees := s.ees ++ [failedEntry id app iface log now] }

/-- The applications of an interface, with those of a new one. -/
def appsOf (iface : Int) : Apps := (s.ies.lookup iface).getD ∅

def success (app iface : Int) (tm : BitVec 64) : StatsCache :=
  let apps := s.appsOf iface
  let e := (apps.lookup app).getD ⟨app, iface, 0, 0⟩
  { s with ies := s.ies.insert iface (apps.insert app (e.counted tm)) }

/-- `entrys`, ranging over the interfaces and the applications of each in these orders. -/
def entrys (ifaces : List Int) (apps : Int → List Int) : List Entry × StatsCache :=
  let r := rangeDelete (fun ii ie es =>
    (rangeDelete (fun _ e es => es ++ [e]) (apps ii) ie es).2) ifaces s.ies []
  (r.2, { s with ies := r.1 })

/-- `errorEntrys` -/
def errorEntrys : List ErrorEntry × StatsCache := (s.ees, { s with ees := [] })

/-- Go may range over the maps in these orders. -/
structure Ranges (ifaces : List Int) (apps : Int → List Int) : Prop where
  outer : ifaces.Perm s.ies.keys
  inner : ∀ ii ie, s.ies.lookup ii = some ie → (apps ii).Perm ie.keys

/-- All entries of the cache. -/
def all : List Entry := s.ies.entries.flatMap fun ie => valuesOf ie.2

/-- Entries stand under the interface and the application they are for. -/
def Keyed : Prop :=
  ∀ ii ie, s.ies.lookup ii = some ie → ∀ ai e, ie.lookup ai = some e → e.iface = ii ∧ e.app = ai

end StatsCache

/-! ## Calls and drains -/

inductive Op where
  | success (app iface : Int) (tm : BitVec 64)
  | entrys
  deriving DecidableEq

/-- The cache, and what every drain has returned. -/
structure History where
  cache : StatsCache
  drained : List (List Entry)

def Op.Step : Op → History → History → Prop
  | .success app iface tm, h, h' => h' = { h with cache := h.cache.success app iface tm }
  | .entrys, h, h' => ∃ ifaces apps, h.cache.Ranges ifaces apps ∧
      h' = ⟨(h.cache.entrys ifaces apps).2, h.drained ++ [(h.cache.entrys ifaces apps).1]⟩

/-- The times of the calls of an interface by an application. -/
def callsOf (iface app : Int) (ops : List Op) : List (BitVec 64) :=
  ops.filterMap fun op => match op with
    | .success a i tm => if i = iface ∧ a = app then some tm else none
    | .entrys => none

/-- The sum of `v` over the entries of an interface and an application. -/
def total {M : Type} [AddCommMonoid M] (v : Entry → M) (iface app : Int) (es : List Entry) : M :=
  ((es.filter fun e => e.iface = iface ∧ e.app = app).map v).sum

/-- What the calls and drains should have come to. -/
structure Conserved (ops : List Op) (h : History) : Prop where
  /-- Every call is counted, in what was drained or in what is cached. -/
  count : ∀ iface app, total Entry.count iface app h.drained.flatten +
    total Entry.count iface app h.cache.all = (callsOf iface app ops).length
  /-- So is its time, modulo 2^64. -/
  time : ∀ iface app, total Entry.time iface app h.drained.flatten +
    total Entry.time iface app h.cache.all = (callsOf iface app ops).sum
  /-- No drain has two entries of one pair. -/
  single : ∀ es ∈ h.drained, (es.map fun e => (e.iface, e.app)).Nodup
  /-- After a drain the cache is empty. -/
  empty : ops.getLast? = some .entrys → h.cache.ies = ∅

/-- Every history of these calls and drains is as it should be, and there is one. -/
structure Conserves (ops : List Op) : Prop where
  history : ∃ h, RelRun Op.Step ops ⟨newStatsCache, []⟩ h
  conserved : ∀ h, RelRun Op.Step ops ⟨newStatsCache, []⟩ h → Conserved ops h

/-! ## Sums -/

section Total

variable {M : Type} [AddCommMonoid M] (v : Entry → M) (iface app : Int)

theorem total_append (es es' : List Entry) :
    total v iface app (es ++ es') = total v iface app es + total v iface app es' := by
  rw [total, List.filter_append, List.map_append, List.sum_append]
  rfl

theorem total_perm {es es' : List Entry} (h : es.Perm es') :
    total v iface app es = total v iface app es' := ((h.filter _).map v).sum_eq

theorem total_cons (e : Entry) (es : List Entry) : total v iface app (e :: es) =
    (if e.iface = iface ∧ e.app = app then v e else 0) + total v iface app es := by
  unfold total
  rw [List.filter_cons]
  by_cases h : e.iface = iface ∧ e.app = app
  · simp only [h, and_self, decide_true, if_true, List.map_cons, List.sum_cons]
  · simp only [h, decide_false, if_false, Bool.false_eq_true, zero_add]

end Total

/-! ## One call -/

section Success

variable (s : StatsCache) (app iface : Int) (tm : BitVec 64)

/-- The entry of the pair before the call, if there is one, and the others. -/
theorem all_perm : ∃ rest,
    s.all.Perm (((s.appsOf iface).lookup app).toList ++ rest) ∧
      (s.success app iface tm).all =
        (((s.appsOf iface).lookup app).getD ⟨app, iface, 0, 0⟩).counted tm :: rest := by
  refine ⟨valuesOf ((s.appsOf iface).erase app) ++
    (s.ies.erase iface).entries.flatMap fun ie => valuesOf ie.2, ?_, ?_⟩
  · have houter : s.all.Perm (valuesOf (s.appsOf iface) ++
        (s.ies.erase iface).entries.flatMap fun ie => valuesOf ie.2) := by
      refine ((entries_perm s.ies iface).flatMap_right _).trans ?_
      rw [List.flatMap_append, StatsCache.appsOf]
      cases s.ies.lookup iface with
      | none => exact .refl _
      | some ie => simp
    have hinner : (valuesOf (s.appsOf iface)).Perm
        (((s.appsOf iface).lookup app).toList ++ valuesOf ((s.appsOf iface).erase app)) := by
      refine ((entries_perm (s.appsOf iface) app).map _).trans ?_
      rw [List.map_append]
      cases (s.appsOf iface).lookup app <;> exact .refl _
    rw [← List.append_assoc]
    exact houter.trans (hinner.append_right _)
  · simp only [StatsCache.all, StatsCache.success, valuesOf, AList.entries_insert,
      List.flatMap_cons, List.map_cons, List.cons_append]
    rfl

variable {s}

theorem keyed_entry (hk : s.Keyed) {e : Entry} (h : (s.appsOf iface).lookup app = some e) :
    e.iface = iface ∧ e.app = app := by
  unfold StatsCache.appsOf at h
  cases hl : s.ies.lookup iface with
  | none =>
    rw [hl] at h
    cases h
  | some ie =>
    rw [hl] at h
    exact hk iface ie hl app e h

theorem keyed_success (hk : s.Keyed) : (s.success app iface tm).Keyed := by
  have hpair : ∀ e, e = (((s.appsOf iface).lookup app).getD ⟨app, iface, 0, 0⟩).counted tm →
      e.iface = iface ∧ e.app = app := by
    rintro e rfl
    cases hl : (s.appsOf iface).lookup app with
    | none => exact ⟨rfl, rfl⟩
    | some e => exact ⟨(keyed_entry app iface hk hl).1, (keyed_entry app iface hk hl).2⟩
  intro ii ie hii ai e hai
  simp only [StatsCache.success] at hii
  by_cases hi : ii = iface
  · subst hi
    rw [AList.lookup_insert, Option.some.injEq] at hii
    subst hii
    by_cases ha : ai = app
    · subst ha
      rw [AList.lookup_insert, Option.some.injEq] at hai
      subst hai
      exact hpair _ rfl
    · rw [AList.lookup_insert_ne ha] at hai
      exact keyed_entry ai ii hk hai
  · rw [AList.lookup_insert_ne hi] at hii
    exact hk ii ie hii ai e hai

/-- A call adds its share to its own pair. -/
theorem total_success {M : Type} [AddCommMonoid M] {v : Entry → M} {inc : BitVec 64 → M}
    (hzero : ∀ app iface, v ⟨app, iface, 0, 0⟩ = 0)
    (hinc : ∀ e tm, v (e.counted tm) = v e + inc tm)
    (hk : s.Keyed) (i a : Int) : total v i a (s.success app iface tm).all =
      total v i a s.all + if iface = i ∧ app = a then inc tm else 0 := by
  obtain ⟨rest, hperm, hnew⟩ := all_perm s app iface tm
  have hpair : ∀ e : Entry, (e.counted tm).iface = e.iface ∧ (e.counted tm).app = e.app :=
    fun _ => ⟨rfl, rfl⟩
  rw [hnew, total_perm v i a hperm, total_cons, total_append, (hpair _).1, (hpair _).2]
  cases hl : (s.appsOf iface).lookup app with
  | none =>
    simp only [Option.getD_none, Option.toList_none]
    by_cases h : iface = i ∧ app = a
    · simp only [if_pos h, hinc, hzero]
      simp [total, add_comm]
    · simp only [if_neg h]
      simp [total]
  | some e =>
    obtain ⟨hi, ha⟩ := keyed_entry app iface hk hl
    simp only [Option.getD_some, Option.toList_some, total_cons, hi, ha]
    by_cases h : iface = i ∧ app = a
    · simp only [if_pos h, hinc]
      simp only [total, List.filter_nil, List.map_nil, List.sum_nil, add_zero]
      rw [add_right_comm]
    · simp only [if_neg h]
      simp [total]

end Success

/-! ## One drain -/

section Drain

variable {s : StatsCache} {ifaces : List Int} {apps : Int → List Int}

/-- The applications of one interface, in the order of the range. -/
theorem drain_apps {order : List Int} {ie : Apps} (h : order.Perm ie.keys) (es : List Entry) :
    ∃ out, out.Perm (valuesOf ie) ∧
      (rangeDelete (fun _ e es => es ++ [e]) order ie es).2 = es ++ out := by
  obtain ⟨l, hl, hrange⟩ := rangeDelete_spec (fun _ (e : Entry) es => es ++ [e]) h es
  refine ⟨l.map fun e => e.2, hl.map _, ?_⟩
  rw [hrange]
  clear hl hrange
  induction l generalizing es with
  | nil => simp
  | cons e l ih => rw [List.foldl_cons, ih, List.map_cons, List.append_assoc, List.singleton_append]

/-- The interfaces of a list, each with its applications in some order. -/
theorem drain_ifaces {l : List (Σ _ : Int, Apps)} (h : ∀ ie ∈ l, (apps ie.1).Perm ie.2.keys)
    (es : List Entry) : ∃ out, out.Perm (l.flatMap fun ie => valuesOf ie.2) ∧
      l.foldl (fun es ie => (rangeDelete (fun _ e es => es ++ [e]) (apps ie.1) ie.2 es).2) es =
        es ++ out := by
  induction l generalizing es with
  | nil => exact ⟨[], .refl _, by simp⟩
  | cons ie l ih =>
    obtain ⟨out, hout, hfirst⟩ := drain_apps (h ie List.mem_cons_self) es
    obtain ⟨out', hout', hrest⟩ := ih (fun ie hie => h ie (List.mem_cons_of_mem _ hie)) (es ++ out)
    refine ⟨out ++ out', ?_, ?_⟩
    · rw [List.flatMap_cons]
      exact hout.append hout'
    · rw [List.foldl_cons, hfirst, hrest, List.append_assoc]

/-- A drain returns all entries and leaves none. -/
theorem entrys_spec (h : s.Ranges ifaces apps) :
    (s.entrys ifaces apps).1.Perm s.all ∧ (s.entrys ifaces apps).2.ies = ∅ := by
  obtain ⟨l, hl, hrange⟩ := rangeDelete_spec (fun ii ie es =>
    (rangeDelete (fun _ (e : Entry) es => es ++ [e]) (apps ii) ie es).2) h.outer []
  have hinner : ∀ ie ∈ l, (apps ie.1).Perm ie.2.keys := fun ie hie =>
    h.inner ie.1 ie.2 (AList.mem_lookup_iff.mpr (hl.subset hie))
  obtain ⟨out, hout, hfold⟩ := drain_ifaces hinner []
  rw [List.nil_append] at hfold
  have hes : (s.entrys ifaces apps).1 = out := (congrArg Prod.snd hrange).trans hfold
  refine ⟨?_, congrArg Prod.fst hrange⟩
  rw [hes]
  exact hout.trans (hl.flatMap_right _)

/-- The entries of a cache are for different pairs. -/
theorem nodup_all (hk : s.Keyed) : (s.all.map fun e => (e.iface, e.app)).Nodup := by
  have hpair : ∀ ie ∈ s.ies.entries, ∀ e ∈ ie.2.entries, (e.2.iface, e.2.app) = (ie.1, e.1) := by
    intro ie hie e he
    obtain ⟨hi, ha⟩ := hk ie.1 ie.2 (AList.mem_lookup_iff.mpr hie) e.1 e.2
      (AList.mem_lookup_iff.mpr he)
    rw [hi, ha]
  have hkeys : (s.all.map fun e => (e.iface, e.app)) =
      s.ies.entries.flatMap fun ie => ie.2.keys.map fun ai => (ie.1, ai) := by
    rw [StatsCache.all, List.map_flatMap]
    refine List.flatMap_congr fun ie hie => ?_
    rw [valuesOf, AList.keys, List.keys, List.map_map, List.map_map]
    exact List.map_congr_left fun e he => hpair ie hie e he
  rw [hkeys, List.nodup_flatMap]
  refine ⟨fun ie _ => ie.2.keys_nodup.map fun _ _ h => (Prod.mk.inj h).2, ?_⟩
  refine (List.pairwise_map.mp s.ies.keys_nodup).imp fun {ie ie'} hne => ?_
  intro p hp hp'
  obtain ⟨_, -, rfl⟩ := List.mem_map.mp hp
  obtain ⟨_, -, heq⟩ := List.mem_map.mp hp'
  exact hne (Prod.mk.inj heq).1.symm

end Drain

/-! ## Calls and drains in any order -/

/-- One call, or one drain: the pairs keep what they have been given. -/
theorem total_step {M : Type} [AddCommMonoid M] {v : Entry → M} (inc : BitVec 64 → M)
    (hzero : ∀ app iface, v ⟨app, iface, 0, 0⟩ = 0)
    (hinc : ∀ e tm, v (e.counted tm) = v e + inc tm) {op : Op} {h h' : History}
    (hk : h.cache.Keyed) (hstep : op.Step h h') (iface app : Int) :
    total v iface app h'.drained.flatten + total v iface app h'.cache.all =
      total v iface app h.drained.flatten + total v iface app h.cache.all +
        ((callsOf iface app [op]).map inc).sum := by
  cases op with
  | success a i tm =>
    obtain rfl := hstep
    rw [total_success a i tm hzero hinc hk, ← add_assoc]
    by_cases hpair : i = iface ∧ a = app
    · simp [callsOf, hpair]
    · simp [callsOf, hpair]
  | entrys =>
    obtain ⟨ifaces, apps, hranges, rfl⟩ := hstep
    obtain ⟨hperm, hempty⟩ := entrys_spec hranges
    have hall : (h.cache.entrys ifaces apps).2.all = [] := by
      rw [StatsCache.all, hempty]
      rfl
    simp only [List.flatten_append, List.flatten_cons, List.flatten_nil, List.append_nil,
      total_append, total_perm v iface app hperm, hall]
    simp [callsOf, total]

theorem callsOf_append (iface app : Int) (ops ops' : List Op) :
    callsOf iface app (ops ++ ops') = callsOf iface app ops ++ callsOf iface app ops' :=
  List.filterMap_append

theorem keyed_step {op : Op} {h h' : History} (hk : h.cache.Keyed) (hstep : op.Step h h') :
    h'.cache.Keyed := by
  cases op with
  | success a i tm =>
    obtain rfl := hstep
    exact keyed_success a i tm hk
  | entrys =>
    obtain ⟨ifaces, apps, hranges, rfl⟩ := hstep
    intro ii ie hii
    rw [(entrys_spec hranges).2] at hii
    cases hii

/-- What one step keeps. -/
theorem conserved_step {ops : List Op} {op : Op} {h h' : History}
    (hinv : h.cache.Keyed ∧ Conserved ops h) (hstep : op.Step h h') :
    h'.cache.Keyed ∧ Conserved (ops ++ [op]) h' := by
  obtain ⟨hk, hc⟩ := hinv
  refine ⟨keyed_step hk hstep, ?_, ?_, ?_, ?_⟩
  · intro iface app
    rw [total_step (fun _ => 1) (fun _ _ => rfl) (fun _ _ => rfl) hk hstep iface app,
      hc.count, callsOf_append, List.length_append]
    simp
  · intro iface app
    rw [total_step id (fun _ _ => rfl) (fun _ _ => rfl) hk hstep iface app,
      hc.time, callsOf_append, List.sum_append, List.map_id]
  · cases op with
    | success a i tm =>
      obtain rfl := hstep
      exact hc.single
    | entrys =>
      obtain ⟨ifaces, apps, hranges, rfl⟩ := hstep
      intro es hes
      rcases List.mem_append.mp hes with hes | hes
      · exact hc.single es hes
      · rw [List.mem_singleton.mp hes]
        exact ((entrys_spec hranges).1.map _).nodup_iff.mpr (nodup_all hk)
  · intro hlast
    rw [List.getLast?_concat, Option.some.injEq] at hlast
    subst hlast
    obtain ⟨ifaces, apps, hranges, rfl⟩ := hstep
    exact (entrys_spec hranges).2

theorem StatsCache.exists_ranges (s : StatsCache) : ∃ ifaces apps, s.Ranges ifaces apps := by
  refine ⟨s.ies.keys, fun ii => (s.appsOf ii).keys, .refl _, fun ii ie hii => ?_⟩
  rw [appsOf, hii, Option.getD_some]

theorem exists_step (op : Op) (h : History) : ∃ h', op.Step h h' := by
  cases op with
  | success a i tm => exact ⟨_, rfl⟩
  | entrys =>
    obtain ⟨ifaces, apps, hranges⟩ := h.cache.exists_ranges
    exact ⟨_, ifaces, apps, hranges, rfl⟩

theorem exists_run (ops : List Op) : ∀ h, ∃ h', RelRun Op.Step ops h h' := by
  induction ops with
  | nil => exact fun h => ⟨h, rfl⟩
  | cons op ops ih =>
    intro h
    obtain ⟨t, ht⟩ := exists_step op h
    obtain ⟨h', hrun⟩ := ih t
    exact ⟨h', t, ht, hrun⟩

theorem stats_conserved (ops : List Op) : Conserves ops where
  history := exists_run ops _
  conserved h hrun := by
    have hstart : newStatsCache.Keyed ∧ Conserved [] ⟨newStatsCache, []⟩ := by
      refine ⟨fun ii ie hii => ?_, fun _ _ => rfl, fun _ _ => ?_, fun es hes => ?_, nofun⟩
      · cases hii
      · simp [total, newStatsCache, StatsCache.all, callsOf]
      · cases hes
    exact (inv_of_relRun (I := fun ops h => h.cache.Keyed ∧ Conserved ops h) ops
      (fun before op s t _ hinv hstep => conserved_step hinv hstep) hstart hrun).2

end Doodle.Repeater.Stats
