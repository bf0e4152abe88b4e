/-
  Histories of one cached lookup of the gateway.

  `callRun call dc ops` makes the calls of `ops` one after another from `dc`, with arbitrary
  parts of the cache forgotten in between and arbitrary clock readings inside each call, and
  lists the calls with their success. A `Lookup` says how a lookup uses the cache: which
  requests reach it (`parse`), under which key, and what the tables answer on a miss
  (`found`).

  `Lookup.right_iff`: the calls of a list succeed exactly when the tables answer them, in every
  history that makes them, if and only if no earlier answered call shares its key with a later
  one that the tables do not answer. Both directions are the memo library's, at the server
  `Lookup.server`. `sound_iff` is the same from a gateway just started, over every server that
  never fails.
-/
import Doodle.Repeater.DbCache

namespace Doodle.Repeater

open Doodle.Go Doodle.Crab Doodle.Lib

variable {R Q β : Type}

/-! ## Histories -/

/-- One step of a history: entries leave the cache, or a call is made with the clock at `tg` in
    `Get` and at `ta` in `Add`. -/
inductive Op (R : Type) where
  | evict (gone : String → Bool)
  | call (tg ta : Int) (r : R)

/-- The calls of a history, oldest first. -/
def Op.calls : List (Op R) → List R
  | [] => []
  | .evict _ :: ops => Op.calls ops
  | .call _ _ r :: ops => r :: Op.calls ops

/-- The cache without the entries of `gone`. -/
def forget (gone : String → Bool) (dc : DbCache) : DbCache :=
  { dc with cache := { dc.cache with ll := dc.cache.ll.filter fun e => !gone e.key } }

/-- The calls of a history from `dc`, each with whether it returned a nil error. -/
def callRun (call : Int → Int → DbCache → R → Res Err β × DbCache) :
    DbCache → List (Op R) → List (R × Bool)
  | _, [] => []
  | dc, .evict gone :: ops => callRun call (forget gone dc) ops
  | dc, .call tg ta r :: ops =>
    (r, (call tg ta dc r).1.isOk) :: callRun call (call tg ta dc r).2 ops

theorem callRun_calls (call : Int → Int → DbCache → R → Res Err β × DbCache) (ops : List (Op R)) :
    ∀ dc, (callRun call dc ops).map Prod.fst = Op.calls ops := by
  induction ops with
  | nil => intro dc; rfl
  | cons o ops ih =>
    intro dc
    cases o with
    | evict gone => exact ih _
    | call tg ta r => simp only [callRun, Op.calls, List.map_cons, ih]

theorem shrinks_forget (gone : String → Bool) (dc : DbCache) :
    Shrinks (forget gone dc).cache.table dc.cache.table := by
  intro key
  have hfind : (forget gone dc).cache.ll.find? (fun e => e.key == key) =
      dc.cache.ll.find? (fun e => (!gone e.key) && e.key == key) := by
    simp only [forget, List.find?_filter, Bool.decide_and, Bool.decide_eq_true]
  by_cases hg : gone key = true
  · right
    have hnone : dc.cache.ll.find? (fun e => (!gone e.key) && e.key == key) = none := by
      rw [List.find?_eq_none]
      intro e _ he
      simp only [Bool.and_eq_true, Bool.not_eq_true', beq_iff_eq] at he
      rw [he.2, hg] at he
      exact absurd he.1 (by decide)
    simp only [Cache.table, Cache.lookup, hfind, hnone, Option.map_none]
  · left
    have hsame : (fun e : CacheEntry Val => (!gone e.key) && e.key == key) =
        fun e => e.key == key := by
      funext e
      by_cases he : e.key = key
      · simp [he, hg]
      · simp [he]
    simp only [Cache.table, Cache.lookup, hfind, hsame]

/-! ## A lookup as a memo server -/

/-- A cached lookup: requests that parse to `q` are looked up under `key q`, and on a miss the
    tables answer `found q` (the value returned and the value cached). -/
structure Lookup (R Q β : Type) where
  parse : R → Option Q
  key : Q → String
  cast : Val → Option β
  miss : Q → DbCache → Res Err (β × Val) × DbCache
  found : Q → Option (β × Val)
  miss_live : ∀ q dc, Live dc → ∃ e n, miss q dc = (orErr (found q) e, { dc with tick := n })
  cast_found : ∀ q b v, found q = some (b, v) → (cast v).isSome

namespace Lookup

variable (L : Lookup R Q β)

/-- What a miss of `q` puts into the cache. -/
def fetch (q : Q) : Option Val := (L.found q).map Prod.snd

@[simp] theorem fetch_isSome (q : Q) : (L.fetch q).isSome = (L.found q).isSome := by
  simp [fetch]

/-- `call` is the lookup `L`: requests that do not parse fail without touching the state. -/
structure Serves (call : Int → Int → DbCache → R → Res Err β × DbCache) : Prop where
  hit : ∀ tg ta dc r q, L.parse r = some q →
    call tg ta dc r = lookupVia tg ta dc (L.key q) L.cast (L.miss q)
  bad : ∀ tg ta dc r, L.parse r = none → (call tg ta dc r).1.isOk = false ∧ (call tg ta dc r).2 = dc

/-- A live connection, and every cached value of the type the lookup asserts. -/
def Inv (dc : DbCache) : Prop :=
  Live dc ∧ ∀ k v, dc.cache.table k = some v → (L.cast v).isSome

theorem inv_of_shrinks {dc : DbCache} {cache : Cache Val} (n : Nat) (h : L.Inv dc)
    (hs : Shrinks cache.table dc.cache.table) : L.Inv { dc with cache := cache, tick := n } := by
  refine ⟨h.1, fun k v hv => ?_⟩
  rcases hs k with hk | hk
  · exact h.2 k v (hk ▸ hv)
  · have : cache.table k = some v := hv
    rw [hk] at this
    cases this

/-- One call, as a memoised call on the evicted table. -/
theorem lookup_spec {dc : DbCache} (h : L.Inv dc) (tg ta : Int) (q : Q) :
    L.Inv (lookupVia tg ta dc (L.key q) L.cast (L.miss q)).2 ∧
    (lookupVia tg ta dc (L.key q) L.cast (L.miss q)).1.isOk =
      (ask L.key L.fetch (dc.cache.evict tg).table q).1.isSome ∧
    (lookupVia tg ta dc (L.key q) L.cast (L.miss q)).2.cache.table =
      (ask L.key L.fetch (dc.cache.evict tg).table q).2 ∧
    ((lookupVia tg ta dc (L.key q) L.cast (L.miss q)).2.cache = dc.cache.evict tg ∨
      ∃ v, (lookupVia tg ta dc (L.key q) L.cast (L.miss q)).2.cache =
        (dc.cache.evict tg).add ta (L.key q) v) := by
  have hev := shrinks_evict dc.cache tg
  obtain ⟨e, n, hm⟩ := L.miss_live q _ (h.1.withCache (dc.cache.evict tg) dc.tick)
  rcases lookupVia_cases tg ta dc (L.key q) L.cast (L.miss q) (L.found q) e n hm with
    ⟨v, hl, he⟩ | ⟨hl, b, v, hf, he⟩ | ⟨hl, hf, he⟩
  · have ht : (dc.cache.evict tg).table (L.key q) = some v := hl
    have hv := (L.inv_of_shrinks dc.tick h hev).2 _ _ ht
    obtain ⟨b, hb⟩ := Option.isSome_iff_exists.mp hv
    rw [he, ask_hit L.key L.fetch ht, hb]
    exact ⟨L.inv_of_shrinks dc.tick h hev, rfl, rfl, Or.inl rfl⟩
  · have ht : (dc.cache.evict tg).table (L.key q) = none := hl
    have hfe : L.fetch q = some v := by simp [fetch, hf]
    rw [he, ask_miss L.key L.fetch ht hfe]
    refine ⟨⟨h.1, fun k u hu => ?_⟩, rfl, table_add _ _ _ _, Or.inr ⟨v, rfl⟩⟩
    have hu' : ((dc.cache.evict tg).add ta (L.key q) v).table k = some u := hu
    rw [table_add] at hu'
    by_cases hk : k = L.key q
    · simp only [Memo.set, hk, if_true, Option.some.injEq] at hu'
      exact hu' ▸ L.cast_found q b v hf
    · simp only [Memo.set, if_neg hk] at hu'
      exact (L.inv_of_shrinks dc.tick h hev).2 k u hu'
  · have ht : (dc.cache.evict tg).table (L.key q) = none := hl
    have hfe : L.fetch q = none := by simp [fetch, hf]
    rw [he, ask_none L.key L.fetch ht hfe]
    exact ⟨L.inv_of_shrinks _ h hev, rfl, rfl, Or.inl rfl⟩

/-- One step of a history: the state after it and the call it served. -/
def step (dc : DbCache) : Op R → DbCache × Option (Q × Bool)
  | .evict gone => (forget gone dc, none)
  | .call tg ta r =>
    match L.parse r with
    | none => (dc, none)
    | some q =>
      ((lookupVia tg ta dc (L.key q) L.cast (L.miss q)).2,
        some (q, (lookupVia tg ta dc (L.key q) L.cast (L.miss q)).1.isOk))

/-- The histories of a lookup are runs of a memo server. -/
def server : MemoServer L.key L.fetch DbCache (Op R) where
  table dc := dc.cache.table
  inv := L.Inv
  step := L.step
  step_inv dc o h := by
    cases o with
    | evict gone => exact L.inv_of_shrinks dc.tick h (shrinks_forget gone dc)
    | call tg ta r =>
      cases hp : L.parse r with
      | none => simpa only [step, hp] using h
      | some q => simpa only [step, hp] using (L.lookup_spec h tg ta q).1
  step_quiet dc o h hq := by
    cases o with
    | evict gone => exact shrinks_forget gone dc
    | call tg ta r =>
      cases hp : L.parse r with
      | none => simpa only [step, hp] using Shrinks.refl _
      | some q => simp [step, hp] at hq
  step_call dc o q b h hq := by
    cases o with
    | evict gone => simp [step] at hq
    | call tg ta r =>
      cases hp : L.parse r with
      | none => simp [step, hp] at hq
      | some q' =>
        simp only [step, hp, Option.some.injEq, Prod.mk.injEq] at hq ⊢
        obtain ⟨rfl, rfl⟩ := hq
        exact ⟨_, shrinks_evict dc.cache tg, (L.lookup_spec h tg ta q').2.1,
          (L.lookup_spec h tg ta q').2.2.1⟩

/-- The parsed calls of a list. -/
def parsed (rs : List R) : List Q := rs.filterMap L.parse

variable {call : Int → Int → DbCache → R → Res Err β × DbCache}

/-- What a history answers, call by call, against the server's trace: unparsed requests fail,
    the others are the trace. -/
theorem callRun_trace (hc : L.Serves call) (ops : List (Op R)) : ∀ dc,
    (callRun call dc ops).filterMap (fun e => (L.parse e.1).map fun q => (q, e.2)) =
        L.server.trace dc ops ∧
      ∀ e ∈ callRun call dc ops, L.parse e.1 = none → e.2 = false := by
  induction ops with
  | nil => intro dc; exact ⟨rfl, fun e he => by cases he⟩
  | cons o ops ih =>
    intro dc
    cases o with
    | evict gone => exact ih _
    | call tg ta r =>
      cases hp : L.parse r with
      | none =>
        obtain ⟨hno, hdc⟩ := hc.bad tg ta dc r hp
        have hstep : L.server.step dc (.call tg ta r) = (dc, none) := by simp [server, step, hp]
        simp only [callRun, hno, hdc, MemoServer.trace, hstep, List.filterMap_cons, hp,
          Option.map_none, Option.toList_none, List.nil_append, List.mem_cons, forall_eq_or_imp,
          implies_true, true_and]
        exact ih dc
      | some q =>
        have hq := hc.hit tg ta dc r q hp
        have hstep : L.server.step dc (.call tg ta r) =
            ((call tg ta dc r).2, some (q, (call tg ta dc r).1.isOk)) := by
          simp [server, step, hp, hq]
        simp only [callRun, MemoServer.trace, hstep, List.filterMap_cons, hp, Option.map_some,
          Option.toList_some, List.singleton_append, List.mem_cons, forall_eq_or_imp,
          reduceCtorEq, false_implies, true_and, List.cons.injEq]
        exact ih _

/-- The calls of `rs`, in order, never follow an answered call of the same key that the tables
    do not answer. -/
def NoClash (rs : List R) : Prop :=
  rs.Pairwise fun old new => ∀ q q', L.parse old = some q → L.parse new = some q' →
    (L.found q).isSome → L.key q = L.key q' → (L.found q').isSome

theorem noClash_iff (rs : List R) : L.NoClash rs ↔ ClashFree L.key L.fetch (L.parsed rs) := by
  unfold NoClash ClashFree parsed
  rw [List.pairwise_filterMap]
  constructor
  · intro h
    refine h.imp fun {old new} ho q hq q' hq' hs hk => ?_
    rw [fetch_isSome] at hs ⊢
    exact ho q q' hq hq' hs hk
  · intro h
    refine h.imp fun {old new} ho q q' hq hq' hs hk => ?_
    have := ho q hq q' hq' (by rwa [fetch_isSome]) hk
    rwa [fetch_isSome] at this

/-- A history answers its calls right: a call succeeds exactly when it parses and the tables
    answer it. -/
def Right (answers : List (R × Bool)) : Prop :=
  ∀ e ∈ answers, e.2 = true ↔ ∃ q, L.parse e.1 = some q ∧ (L.found q).isSome

theorem right_iff_trace (hc : L.Serves call) (dc : DbCache) (ops : List (Op R)) :
    L.Right (callRun call dc ops) ↔ ∀ e ∈ L.server.trace dc ops, e.2 = (L.fetch e.1).isSome := by
  obtain ⟨ht, hbad⟩ := L.callRun_trace hc ops dc
  constructor
  · intro h e he
    rw [← ht, List.mem_filterMap] at he
    obtain ⟨⟨r, b⟩, hm, hp⟩ := he
    obtain ⟨q, hq, rfl⟩ := Option.map_eq_some_iff.mp hp
    have := h _ hm
    simp only [hq, Option.some.injEq, exists_eq_left'] at this
    rw [fetch_isSome]
    exact Bool.eq_iff_iff.mpr this
  · intro h e he
    cases hp : L.parse e.1 with
    | none => simp [hbad e he hp]
    | some q =>
      have hm : (q, e.2) ∈ L.server.trace dc ops := by
        rw [← ht, List.mem_filterMap]
        exact ⟨e, he, by simp [hp]⟩
      have := h _ hm
      simp only [fetch_isSome] at this
      simp [this]

theorem trace_calls (hc : L.Serves call) (dc : DbCache) (ops : List (Op R)) :
    (L.server.trace dc ops).map Prod.fst = L.parsed (Op.calls ops) := by
  rw [← (L.callRun_trace hc ops dc).1, ← callRun_calls call ops dc, parsed, List.map_filterMap,
    List.filterMap_map]
  congr 1
  funext e
  simp only [Option.map_map, Function.comp_def, Option.map_id']

/-- Without a clash every history answers right. -/
theorem right_of_noClash (hc : L.Serves call) (dc : DbCache) (hi : L.Inv dc)
    (h0 : dc.cache.table = Memo.empty) (ops : List (Op R)) (h : L.NoClash (Op.calls ops)) :
    L.Right (callRun call dc ops) := by
  rw [L.right_iff_trace hc]
  refine L.server.trace_faithful dc ops hi h0 ?_
  rw [L.trace_calls hc, ← L.noClash_iff]
  exact h

/-! ## The history that loses nothing -/

/-- The calls of `rs` with the clock standing still. -/
def still (rs : List R) : List (Op R) := rs.map fun r => .call 0 0 r

theorem calls_still (rs : List R) : Op.calls (still rs) = rs := by
  induction rs with
  | nil => rfl
  | cons r rs ih =>
    have : Op.calls (still (r :: rs)) = r :: Op.calls (still rs) := rfl
    rw [this, ih]

/-- The state while the clock stands still: nothing is old enough to leave. -/
def Young (dc : DbCache) : Prop :=
  L.Inv dc ∧ dc.cache.timeout = 1 ∧ ∀ e ∈ dc.cache.ll, e.last = 0

theorem young_evict {cache : Cache Val} (ht : cache.timeout = 1) (hl : ∀ e ∈ cache.ll, e.last = 0) :
    cache.evict 0 = cache := by
  refine evict_eq_self cache 0 fun e he => ?_
  rw [ht, hl e he]
  decide

theorem young_add {cache : Cache Val} (ht : cache.timeout = 1) (hl : ∀ e ∈ cache.ll, e.last = 0)
    (k : String) (v : Val) :
    (cache.add 0 k v).timeout = 1 ∧ ∀ e ∈ (cache.add 0 k v).ll, e.last = 0 := by
  unfold Cache.add
  split
  · refine ⟨ht, fun e he => ?_⟩
    obtain ⟨e', he', rfl⟩ := List.mem_map.mp he
    split
    · exact hl e' he'
    · exact hl e' he'
  · refine ⟨ht, fun e he => ?_⟩
    rcases List.mem_cons.mp he with rfl | he
    · rfl
    · exact hl e he

theorem still_lossless (rs : List R) (dc : DbCache) (hy : L.Young dc) :
    ∀ o ∈ still rs, L.Young (L.server.step dc o).1 ∧ L.server.Lossless dc o := by
  intro o ho
  obtain ⟨r, -, rfl⟩ := List.mem_map.mp ho
  obtain ⟨hi, ht, hl⟩ := hy
  cases hp : L.parse r with
  | none =>
    have hstep : L.server.step dc (.call 0 0 r) = (dc, none) := by simp [server, step, hp]
    simp only [MemoServer.Lossless, hstep, and_true]
    exact ⟨hi, ht, hl⟩
  | some q =>
    obtain ⟨h1, h2, h3, h4⟩ := L.lookup_spec hi 0 0 q
    rw [young_evict ht hl] at h2 h3 h4
    have hstep : L.server.step dc (.call 0 0 r) =
        ((lookupVia 0 0 dc (L.key q) L.cast (L.miss q)).2,
          some (q, (lookupVia 0 0 dc (L.key q) L.cast (L.miss q)).1.isOk)) := by
      simp [server, step, hp]
    refine ⟨?_, ?_⟩
    · rw [hstep]
      refine ⟨h1, ?_⟩
      rcases h4 with h4 | ⟨v, h4⟩
      · rw [h4]; exact ⟨ht, hl⟩
      · rw [h4]; exact young_add ht hl _ _
    · simp only [MemoServer.Lossless, hstep]
      exact ⟨h2, h3⟩

/-- The calls of `rs` are answered right in every history that makes them, from any state
    with an empty cache, exactly when they have no clash. -/
theorem right_iff (hc : L.Serves call) (start : Int → DbCache)
    (h0 : ∀ timeout, Live (start timeout) ∧ (start timeout).cache = newCache timeout) (rs : List R) :
    (∀ timeout ops, Op.calls ops = rs → L.Right (callRun call (start timeout) ops)) ↔
      L.NoClash rs := by
  have hinv : ∀ t, L.Inv (start t) := fun t =>
    ⟨(h0 t).1, fun k v hv => by rw [(h0 t).2] at hv; cases hv⟩
  have hemp : ∀ t, (start t).cache.table = Memo.empty := fun t => by rw [(h0 t).2]; rfl
  constructor
  · intro h
    have hr := h 1 (still rs) (calls_still rs)
    rw [L.right_iff_trace hc] at hr
    have hy : L.Young (start 1) :=
      ⟨hinv 1, by rw [(h0 1).2]; rfl, fun e he => by rw [(h0 1).2] at he; cases he⟩
    have := L.server.clashFree_of_trace L.Young (start 1) (still rs)
      (fun dc hd o ho => L.still_lossless rs dc hd o ho) hy (hemp 1) hr
    rwa [L.trace_calls hc, calls_still, ← L.noClash_iff] at this
  · rintro h timeout ops rfl
    exact L.right_of_noClash hc _ (hinv _) (hemp _) ops h

end Lookup

/-! ## Soundness of a lookup over every history -/

/-- The calls of `rs` succeed exactly on the `good` requests, in every history that makes them
    on a gateway just started, with a server that never fails. -/
def Sound (call : Server → Int → Int → DbCache → R → Res Err β × DbCache) (good : R → Prop)
    (rs : List R) : Prop :=
  ∀ (srv : Server) (timeout : Int) (ops : List (Op R)), srv.Reliable → Op.calls ops = rs →
    ∀ e ∈ callRun (call srv) (initDC srv timeout) ops, (e.2 = true ↔ good e.1)

/-- The calls of `rs` are sound exactly when they have no clash. -/
theorem sound_iff {call : Server → Int → Int → DbCache → R → Res Err β × DbCache}
    {good : R → Prop} (L : (srv : Server) → srv.Reliable → Lookup R Q β)
    (hc : ∀ srv hs, (L srv hs).Serves (call srv))
    (hgood : ∀ srv hs r,
      (∃ q, (L srv hs).parse r = some q ∧ ((L srv hs).found q).isSome) ↔ good r)
    (rs : List R) (clash : Prop) (hclash : ∀ srv hs, (L srv hs).NoClash rs ↔ clash) :
    Sound call good rs ↔ clash := by
  have hright : ∀ srv hs answers,
      (L srv hs).Right answers ↔ ∀ e ∈ answers, (e.2 = true ↔ good e.1) := by
    intro srv hs answers
    simp only [Lookup.Right, hgood]
  constructor
  · intro h
    have hs : Server.Reliable fun _ => true := fun _ => rfl
    rw [← hclash _ hs, ← (L _ hs).right_iff (hc _ hs) _ (initDC_spec _ hs)]
    intro timeout ops hops
    exact (hright _ hs _).mpr (h _ timeout ops hs hops)
  · intro h srv timeout ops hs hops
    rw [← hclash srv hs, ← (L srv hs).right_iff (hc srv hs) _ (initDC_spec srv hs)] at h
    exact (hright srv hs _).mp (h timeout ops hops)

end Doodle.Repeater
