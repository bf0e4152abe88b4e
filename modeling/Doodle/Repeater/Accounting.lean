/-
  What the gateway counts: `success` and `failed` of `repeater/stats.go`, as `ServeHTTP` calls them
  for any number of requests at once, while `run` drains the counts.

  A request that is forwarded is counted once, when the backend has answered or failed: as a success
  of its application and interface, or as an error of theirs. A request that was refused is not
  counted at all. So when no request is under way, the counts of a pair, those drained and those
  still cached, add up to the requests that were forwarded for it.

  This is about what `entrys` and `errorEntrys` return. What `run` then does with it is in
  `ErrorStats.lean`: no error entry is ever stored.

  * `balance_serve`, `balance_drift`: what one step does to the balance of a pair.
  * `weight_of_path`: a request that has ended has left the balance as it was.
  * `statistics_balance`: the balance is zero in every run when no request is under way.
-/
import Doodle.Repeater.Mediation

namespace Doodle.Repeater.Serve

open Doodle.Go Doodle.Lib Doodle.Util

/-! ## The balance of a pair -/

section Balance

variable (iface app : Int)

/-- The requests forwarded for a pair. -/
def forwarded (w : World) : Nat := w.sent.countP fun f => f.iface.id = iface ∧ f.app.id = app

/-- The successes counted for a pair, drained or cached. -/
def successes (w : World) : Nat :=
  Stats.total Stats.Entry.count iface app w.drained +
    Stats.total Stats.Entry.count iface app w.stats.all

/-- The errors kept for a pair, drained or cached. -/
def failures (w : World) : Nat :=
  (w.errors ++ w.stats.ees).countP fun e => e.iface = iface ∧ e.app = app

def balance (w : World) : Int := forwarded iface app w - successes iface app w - failures iface app w

/-- What a call adds to the balance. -/
def weight : Call → Int
  | .doRequest _ _ a i _ => if i.id = iface ∧ a.id = app then 1 else 0
  | .success a i _ => if i = iface ∧ a = app then -1 else 0
  | .failed _ a i _ => if i = iface ∧ a = app then -1 else 0
  | _ => 0

variable {iface app}

theorem balance_congr {w w' : World} (hsent : w'.sent = w.sent) (hstats : w'.stats = w.stats)
    (hdrained : w'.drained = w.drained) (herrors : w'.errors = w.errors) :
    balance iface app w' = balance iface app w := by
  simp only [balance, forwarded, successes, failures, hsent, hstats, hdrained, herrors]

/-- A step that leaves the statistics and what was forwarded alone. -/
theorem balance_dc {c : Call} (hc : weight iface app c = 0) {w w' : World}
    (hk : w.stats.Keyed) (hsent : w'.sent = w.sent) (hstats : w'.stats = w.stats)
    (hdrained : w'.drained = w.drained) (herrors : w'.errors = w.errors) :
    w'.stats.Keyed ∧ balance iface app w' = balance iface app w + weight iface app c := by
  rw [hc, add_zero]
  exact ⟨hstats ▸ hk, balance_congr hsent hstats hdrained herrors⟩

theorem balance_asked {α : Type} {c : Call} (hc : weight iface app c = 0)
    {r : Res Err α × DbCache} {a : Res Err α} {w w' : World} (hk : w.stats.Keyed)
    (h : Asked r w a w') :
    w'.stats.Keyed ∧ balance iface app w' = balance iface app w + weight iface app c := by
  obtain ⟨-, rfl⟩ := h
  exact balance_dc hc hk rfl rfl rfl rfl

/-- One call. -/
theorem balance_serve {c : Call} {w w' : World} {a : Ans c} (hk : w.stats.Keyed)
    (h : serve c w a w') :
    w'.stats.Keyed ∧ balance iface app w' = balance iface app w + weight iface app c := by
  cases c with
  | cacheEvict =>
    obtain ⟨t, rfl⟩ := h
    exact balance_dc rfl hk rfl rfl rfl rfl
  | cacheLookup key =>
    obtain ⟨-, rfl⟩ := h
    exact balance_dc rfl hk rfl rfl rfl rfl
  | cacheAdd key val =>
    obtain ⟨t, rfl⟩ := h
    exact balance_dc rfl hk rfl rfl rfl rfl
  | stmt n =>
    obtain ⟨-, rfl⟩ := h
    exact balance_dc rfl hk rfl rfl rfl rfl
  | selService s path =>
    obtain ⟨srv, h⟩ := h
    exact balance_asked rfl hk h
  | selIface s id path =>
    obtain ⟨srv, h⟩ := h
    exact balance_asked rfl hk h
  | selApp s id token =>
    obtain ⟨srv, h⟩ := h
    exact balance_asked rfl hk h
  | selRelation s appID ifaceID =>
    obtain ⟨srv, h⟩ := h
    exact balance_asked rfl hk h
  | selVar id =>
    obtain ⟨srv, h | ⟨vs, n, -, -, rfl⟩⟩ := h
    · exact balance_asked rfl hk h
    · exact balance_dc rfl hk rfl rfl rfl rfl
  | getMicroAPPs name =>
    obtain ⟨-, rfl⟩ := h
    exact balance_dc rfl hk rfl rfl rfl rfl
  | unixNano =>
    obtain rfl := h
    exact balance_dc rfl hk rfl rfl rfl rfl
  | doRequest session message a' i out =>
    obtain rfl := h
    refine ⟨hk, ?_⟩
    simp only [balance, forwarded, successes, failures, weight, List.countP_cons,
      decide_eq_true_eq]
    split <;> omega
  | success a' i tm =>
    obtain rfl := h
    refine ⟨Stats.keyed_success a' i tm hk, ?_⟩
    have hinc : ∀ (e : Stats.Entry) tm, (e.counted tm).count = e.count + (fun _ => 1) tm :=
      fun _ _ => rfl
    have htotal : Stats.total Stats.Entry.count iface app (w.stats.success a' i tm).all =
        Stats.total Stats.Entry.count iface app w.stats.all +
          if i = iface ∧ a' = app then 1 else 0 :=
      Stats.total_success a' i tm (v := Stats.Entry.count) (fun _ _ => rfl) hinc hk iface app
    have hees : (w.stats.success a' i tm).ees = w.stats.ees := rfl
    simp only [balance, forwarded, successes, failures, weight, htotal, hees]
    split <;> omega
  | failed id a' i log =>
    obtain ⟨now, rfl⟩ := h
    refine ⟨hk, ?_⟩
    have hall : (w.stats.failed id a' i log now).all = w.stats.all := rfl
    have hees : (w.stats.failed id a' i log now).ees =
        w.stats.ees ++ [Stats.failedEntry id a' i log now] := rfl
    simp only [balance, forwarded, successes, failures, weight, hall, hees, List.countP_append,
      List.countP_singleton, Stats.failedEntry, decide_eq_true_eq]
    split <;> omega

/-- A drain moves the counts, and nothing else touches them. -/
theorem balance_drift {w w' : World} (hk : w.stats.Keyed) (h : Drift w w') :
    w'.stats.Keyed ∧ balance iface app w' = balance iface app w := by
  cases h with
  | tables tb => exact ⟨hk, balance_congr rfl rfl rfl rfl⟩
  | connection dc _ => exact ⟨hk, balance_congr rfl rfl rfl rfl⟩
  | instances apps => exact ⟨hk, balance_congr rfl rfl rfl rfl⟩
  | entrys ifaces apps hranges =>
    obtain ⟨hperm, hempty⟩ := Stats.entrys_spec hranges
    have hall : (w.stats.entrys ifaces apps).2.all = [] := by
      rw [Stats.StatsCache.all, hempty]
      rfl
    have hees : (w.stats.entrys ifaces apps).2.ees = w.stats.ees := rfl
    refine ⟨fun ii ie hii => ?_, ?_⟩
    · rw [hempty] at hii
      cases hii
    · simp only [balance, forwarded, successes, failures, hall, hees, Stats.total_append,
        Stats.total_perm _ _ _ hperm]
      simp [Stats.total]
  | errorEntrys =>
    refine ⟨hk, ?_⟩
    simp only [balance, forwarded, successes, failures, Stats.StatsCache.errorEntrys,
      List.append_nil]
    rfl

end Balance

/-! ## The calls of one request -/

section Request

variable {α β : Type}

/-- The calls that forward or count. -/
def Call.counts : Call → Bool
  | .doRequest _ _ _ _ _ => true
  | .success _ _ _ => true
  | .failed _ _ _ _ => true
  | _ => false

/-- The program neither forwards nor counts. -/
abbrev Idle (p : P α) : Prop := Prog.All (fun c => c.counts = false) p

theorem idle_andThen {p : P (Res Err α)} {f : α → P (Res Err β)} (hp : Idle p)
    (hf : ∀ a, Idle (f a)) : Idle (andThen p f) :=
  Prog.all_bind hp fun r => match r with
    | .ok a => hf a
    | .err _ => trivial
    | .panic _ => trivial

theorem idle_lookup {key : String} {cast : Val → Option β} {miss : P (Res Err (β × Val))}
    (hmiss : Idle miss) : Idle (lookup key cast miss) := by
  refine ⟨rfl, fun _ => ⟨rfl, fun v => ?_⟩⟩
  cases v with
  | some v => exact trivial
  | none => exact idle_andThen hmiss fun r => ⟨rfl, fun _ => trivial⟩

theorem idle_getApp (C : Crypto) (token : String) : Idle (getApp C token) := by
  unfold getApp
  split
  · exact trivial
  · exact trivial
  · split
    · exact trivial
    · exact idle_lookup ⟨rfl, fun _ => ⟨rfl, fun _ => trivial⟩⟩

theorem idle_interfaceMiss (key : String) : Idle (interfaceMiss key) := by
  unfold interfaceMiss
  split
  · exact ⟨rfl, fun s => idle_andThen ⟨rfl, fun _ => trivial⟩
      fun p => ⟨rfl, fun _ => ⟨rfl, fun _ => trivial⟩⟩⟩
  · exact trivial

theorem idle_permit (app : Application) (iface : Interface) : Idle (permit app iface) := by
  unfold permit
  split
  · exact trivial
  · exact Prog.all_bind (idle_lookup ⟨rfl, fun _ => ⟨rfl, fun _ => trivial⟩⟩) fun _ => trivial

theorem idle_getInterface (C : Crypto) (m : Message) : Idle (getInterface C m) := by
  unfold getInterface
  simp only
  split
  · exact trivial
  · refine idle_andThen (idle_getApp C _) fun app =>
      idle_andThen (idle_lookup (idle_interfaceMiss _)) fun iface => ?_
    split
    · exact trivial
    · exact idle_permit app iface

theorem idle_validate (H : NetHttp) (iface : Interface) (m : Message) :
    Idle (validate H iface m) :=
  idle_andThen (idle_lookup ⟨rfl, fun _ => trivial⟩) fun _ => trivial

theorem idle_buildRequest (N : NetUrl) (gitTime id : String) (iface : Interface)
    (req : HttpRequest) : Idle (buildRequest N gitTime id iface req) := by
  unfold buildRequest
  split
  · refine ⟨rfl, fun apps => ?_⟩
    cases apps with
    | none => exact trivial
    | some apps => exact ⟨rfl, fun _ => trivial⟩
  · exact trivial

variable {iface app : Int}

/-- The weight of some calls. -/
def weightOf (iface app : Int) (l : List (Answered Ans)) : Int :=
  (l.map fun x => weight iface app x.1).sum

theorem weightOf_idle {p q : P α} {l : List (Answered Ans)} (hp : Idle p) (h : Prog.Path p l q) :
    weightOf iface app l = 0 := by
  refine List.sum_eq_zero fun n hn => ?_
  obtain ⟨x, hx, rfl⟩ := List.mem_map.mp hn
  have hidle := h.forall_of_all hp x hx
  obtain ⟨c, a⟩ := x
  cases c <;> first | rfl | cases hidle

theorem weightOf_orReply {p : P (Res Err α)} {onErr : Err → Reply} {f : α → P Reply}
    (hp : Idle p)
    (hf : ∀ a l reply, Prog.Path (f a) l (.done reply) → weightOf iface app l = 0)
    {l : List (Answered Ans)} {reply : Reply}
    (h : Prog.Path (orReply p onErr f) l (.done reply)) : weightOf iface app l = 0 := by
  obtain ⟨l₁, l₂, r, rfl, h₁, h₂⟩ := h.of_bind
  have hfirst : weightOf iface app l₁ = 0 := weightOf_idle hp h₁
  have hrest : weightOf iface app l₂ = 0 := by
    cases r with
    | ok a => exact hf a l₂ reply h₂
    | err e =>
      cases h₂
      rfl
    | panic why =>
      cases h₂
      rfl
  rw [weightOf, List.map_append, List.sum_append]
  exact (congrArg₂ (· + ·) hfirst hrest).trans (add_zero 0)

/-- From the call of the backend on: what is forwarded is counted. -/
theorem weightOf_forward {id : String} {m : Message} {a : Application} {i : Interface}
    {out : Validation.Sent} {l : List (Answered Ans)} {reply : Reply}
    (h : Prog.Path (forward id m a i out) l (.done reply)) : weightOf iface app l = 0 := by
  -- the four calls of such a path, whichever way it is counted
  have hfour : ∀ (b now : Int) (answer : Ans (.doRequest id m a i out)) (c : Call) (x : Ans c),
      weight iface app c = (if i.id = iface ∧ a.id = app then -1 else 0) →
        weightOf iface app [⟨.unixNano, b⟩, ⟨.doRequest id m a i out, answer⟩, ⟨.unixNano, now⟩,
          ⟨c, x⟩] = 0 := by
    intro b now answer c x hc
    simp only [weightOf, List.map_cons, List.map_nil, List.sum_cons, List.sum_nil]
    rw [hc]
    simp only [weight]
    split <;> rfl
  unfold forward at h
  cases h with
  | ask h =>
  cases h with
  | @ask _ _ answer _ _ h =>
  cases h with
  | ask h =>
  cases answer with
  | error e =>
    cases h with
    | ask h =>
      cases h
      exact hfour _ _ _ _ _ rfl
  | ok r =>
    simp only at h
    split at h
    · cases h with
      | ask h =>
        cases h
        exact hfour _ _ _ _ _ rfl
    · cases h with
      | ask h =>
        cases h
        exact hfour _ _ _ _ _ rfl

/-- A request that has ended has left the balance as it was. -/
theorem weight_of_path {C : Crypto} {N : NetUrl} {H : NetHttp} {gitTime id : String} {m : Message}
    {l : List (Answered Ans)} {reply : Reply}
    (h : Prog.Path (serveHTTP C N H gitTime id m) l (.done reply)) : weightOf iface app l = 0 := by
  unfold serveHTTP at h
  cases hb : m.bodyErr with
  | some e =>
    rw [hb] at h
    cases h
    rfl
  | none =>
    rw [hb] at h
    exact weightOf_orReply (idle_getInterface C m) (fun r _ _ => weightOf_orReply
      (idle_validate H r.2 m) fun req _ _ => weightOf_orReply
        (idle_buildRequest N gitTime id r.2 req) fun out _ _ => weightOf_forward) h

end Request

/-! ## Any number of requests -/

section Requests

variable {ι : Type} [DecidableEq ι] (C : Crypto) (N : NetUrl) (H : NetHttp) (gitTime : String)
  (ids : ι → String) (ms : ι → Message) (tb : Tables) (dc : DbCache) (apps : Apps)

/-- Every request that has made a call has ended. -/
def Settled (tr : List (ι × Answered Ans)) (t : Crew ι Ans Reply World) : Prop :=
  ∀ i, Crew.callsOf i tr = [] ∨ ∃ reply, t.prog i = .done reply

/-- When no request is under way, the counts of a pair are the requests forwarded for it. -/
def Balances : Prop :=
  ∀ tr t, (gateway C N H gitTime ids ms tb dc apps).Run rules tr t → Settled tr t →
    ∀ iface app, forwarded iface app t.world =
      successes iface app t.world + failures iface app t.world

/-- The balance of a pair in a run is the weight of the calls made. -/
theorem balance_run {s t : Crew ι Ans Reply World} {tr : List (ι × Answered Ans)} (iface app : Int)
    (hk : s.world.stats.Keyed) (hrun : s.Run rules tr t) :
    t.world.stats.Keyed ∧ balance iface app t.world =
      balance iface app s.world + ((tr.map Prod.snd).map fun x => weight iface app x.1).sum := by
  induction hrun with
  | start => exact ⟨hk, by simp⟩
  | call _ _ hserve ih =>
    obtain ⟨hk', hstep⟩ : _ ∧ balance iface app _ = balance iface app _ + weight iface app _ :=
      balance_serve ih.1 hserve
    refine ⟨hk', hstep.trans ?_⟩
    rw [ih.2, List.map_append, List.map_append, List.sum_append, ← add_assoc]
    simp
  | drift _ hdrift ih =>
    obtain ⟨hk', hstep⟩ : _ ∧ balance iface app _ = balance iface app _ :=
      balance_drift ih.1 hdrift
    exact ⟨hk', hstep.trans ih.2⟩

/-- In every run of any requests, however they are interleaved with each other and with drains. -/
theorem statistics_balance : Balances C N H gitTime ids ms tb dc apps := by
  intro tr t hrun hsettled iface app
  have hk : (start tb dc apps).stats.Keyed := fun _ _ h => nomatch h
  have hbalance := (balance_run iface app hk hrun).2
  have hzero : ((tr.map Prod.snd).map fun x => weight iface app x.1).sum = 0 := by
    refine sum_eq_zero_of_fibers _ tr fun i => ?_
    rcases hsettled i with hnone | ⟨reply, hdone⟩
    · show weightOf iface app (Crew.callsOf i tr) = 0
      rw [hnone]
      rfl
    · have hpath := hrun.path i
      rw [hdone] at hpath
      exact weight_of_path hpath
  have hstart : balance iface app (gateway C N H gitTime ids ms tb dc apps).world = 0 := rfl
  rw [hzero, hstart, balance] at hbalance
  omega

end Requests

end Doodle.Repeater.Serve
