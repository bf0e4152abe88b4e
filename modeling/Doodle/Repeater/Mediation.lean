/-
  What the gateway lets through: `ServeHTTP` of `repeater/repeater.go`, for any number of requests
  at once.

  A request that was handed to a backend had a token of the application it was counted for, an
  interface that was in the tables, the method of that interface, values for the variables, and,
  if the service asks for it, a permission. Each of these is said of some moment so far, since the
  answers come from the cache; the service and the interface may be of two moments, as they are two
  queries. Two weaknesses of the source are part of the statement. A permission is one of a pair
  with the same cache key (`relation_leaks` in `Permission.lean`), and the variables are only the
  first ones, if the connection broke while they were read (`World.cuts`).

  * `Vouched`: where a cache entry comes from. Every call keeps it (`quiet_serve`,
    `upholds_lookup`).
  * `serveHTTP_mediated`: every request that was forwarded is `Authorised`, in every run, and what
    a client is sent as the backend's answer is the answer to that client's own request.
-/
import Doodle.Repeater.Serve
import Doodle.Repeater.Staleness
import Doodle.Repeater.Statements

namespace Doodle.Repeater.Serve

open Doodle.Go Doodle.Crab Doodle.Lib Doodle.Util

/-! ## What is said of a request -/

section Said

variable (C : Crypto) (H : NetHttp) (past : List Tables) (cuts : List Int)

/-- The application has had a row with a token of its id. -/
def Admitted (a : Application) : Prop :=
  ∃ tb ∈ past, ∃ token, tokenID C token = some a.id ∧ (a.name, a.email) ∈ selApp tb a.id token

/-- The interface of a request path, and its service, have been in the tables. -/
def Known (key : String) (i : Interface) : Prop :=
  ∃ p0 p1 p2 ps, split key '/' = p0 :: p1 :: p2 :: ps ∧
    i.path = ifacePath i.service.version key p1 p2 ∧
    (∃ tb ∈ past, i.service ∈ selService tb p1) ∧
    ∃ tb ∈ past, (i.id, i.method, i.backend, i.email) ∈ selIface tb i.service.id i.path

/-- A pair with the same cache key has been related. -/
def Permitted (appID ifaceID : Int) : Prop :=
  ∃ tb ∈ past, ∃ p, Related tb p ∧ relationKey p.1 p.2 = relationKey appID ifaceID

/-- The variables of the interface at some moment, or the first ones of them. -/
def ReadVars (id : Int) (vs : List Variable) : Prop :=
  ∃ tb ∈ past, ∃ rows, rows <+: selVar tb id ∧ (rows = selVar tb id ∨ id ∈ cuts) ∧
    scanVars rows = some vs

/-- Where a value in the cache comes from. -/
def Vouched (key : String) : Val → Prop
  | .iface i => (∃ p : UrlPath, key = p.text) ∧ Known past key i
  | .app a => key = appKey a.id ∧ Admitted C past a
  | .relation _ => ∃ p : Int × Int, key = relationKey p.1 p.2 ∧ Permitted past p.1 p.2
  | .vars vs => ∃ id, key = varKey id ∧ ReadVars past cuts id vs

/-- What `ServeHTTP` has made sure of when it calls the backend. -/
structure Authorised (f : Forwarded) : Prop where
  token : tokenID C (firstValue (f.message.header "Token")) = some f.app.id
  app : Admitted C past f.app
  iface : Known past f.message.path.text f.iface
  method : f.iface.method = restful ∨ f.message.method = methodString f.iface.method
  permission : f.iface.service.validate = true → Permitted past f.app.id f.iface.id
  vars : ∃ vs, ReadVars past cuts f.iface.id vs ∧
    ∀ v ∈ vs, ValueMeets v (valueAt H.canonical (Validation.input H f.message) v)
  session : f.out.header "Session" = [f.session]
  noToken : f.out.header "Token" = []

end Said

/-! ## More is said later -/

section Mono

variable {C : Crypto} {H : NetHttp} {past past' : List Tables} {cuts cuts' : List Int}

theorem Admitted.mono {a : Application} (h : Admitted C past a) (hp : past ⊆ past') :
    Admitted C past' a := by
  obtain ⟨tb, htb, h⟩ := h
  exact ⟨tb, hp htb, h⟩

theorem Known.mono {key : String} {i : Interface} (h : Known past key i) (hp : past ⊆ past') :
    Known past' key i := by
  obtain ⟨p0, p1, p2, ps, hsplit, hpath, ⟨tb, htb, hs⟩, tb', htb', hi⟩ := h
  exact ⟨p0, p1, p2, ps, hsplit, hpath, ⟨tb, hp htb, hs⟩, tb', hp htb', hi⟩

theorem Permitted.mono {a i : Int} (h : Permitted past a i) (hp : past ⊆ past') :
    Permitted past' a i := by
  obtain ⟨tb, htb, h⟩ := h
  exact ⟨tb, hp htb, h⟩

theorem ReadVars.mono {id : Int} {vs : List Variable} (h : ReadVars past cuts id vs)
    (hp : past ⊆ past') (hc : cuts ⊆ cuts') : ReadVars past' cuts' id vs := by
  obtain ⟨tb, htb, rows, hpre, hall, hscan⟩ := h
  exact ⟨tb, hp htb, rows, hpre, hall.imp_right fun h => hc h, hscan⟩

theorem Vouched.mono {key : String} {v : Val} (h : Vouched C past cuts key v)
    (hp : past ⊆ past') (hc : cuts ⊆ cuts') : Vouched C past' cuts' key v := by
  cases v with
  | iface i => exact ⟨h.1, h.2.mono hp⟩
  | app a => exact ⟨h.1, h.2.mono hp⟩
  | relation r =>
    obtain ⟨p, hk, h⟩ := h
    exact ⟨p, hk, h.mono hp⟩
  | vars vs =>
    obtain ⟨id, hk, h⟩ := h
    exact ⟨id, hk, h.mono hp hc⟩

theorem Authorised.mono {f : Forwarded} (h : Authorised C H past cuts f) (hp : past ⊆ past')
    (hc : cuts ⊆ cuts') : Authorised C H past' cuts' f := by
  obtain ⟨vs, hvs, hmeets⟩ := h.vars
  exact ⟨h.token, h.app.mono hp, h.iface.mono hp, h.method, fun hv => (h.permission hv).mono hp,
    ⟨vs, hvs.mono hp hc, hmeets⟩, h.session, h.noToken⟩

end Mono

/-! ## Kinds of keys -/

section Kinds

variable {C : Crypto} {past : List Tables} {cuts : List Int}

theorem Vouched.tag_mem {key : String} {v : Val} (h : Vouched C past cuts key v) :
    tag key ∈ Staleness.tags v := by
  cases v with
  | iface i =>
    obtain ⟨⟨p, rfl⟩, -⟩ := h
    have := p.tag_text
    simp only [Staleness.tags, List.mem_cons, List.not_mem_nil, or_false]
    tauto
  | app a =>
    rw [h.1, tag_appKey]
    exact List.mem_singleton_self _
  | relation r =>
    obtain ⟨p, rfl, -⟩ := h
    rw [tag_relationKey]
    exact List.mem_singleton_self _
  | vars vs =>
    obtain ⟨id, rfl, -⟩ := h
    rw [tag_varKey]
    exact List.mem_singleton_self _

theorem Vouched.of_path {p : UrlPath} {i : Interface} (h : Vouched C past cuts p.text (.iface i)) :
    Known past p.text i := h.2

theorem Vouched.of_appKey {id : Int} {a : Application}
    (h : Vouched C past cuts (appKey id) (.app a)) : a.id = id ∧ Admitted C past a :=
  ⟨(appKey_inj h.1).symm, h.2⟩

theorem Vouched.of_varKey {id : Int} {vs : List Variable}
    (h : Vouched C past cuts (varKey id) (.vars vs)) : ReadVars past cuts id vs := by
  obtain ⟨id', hk, h⟩ := h
  exact Staleness.varKey_inj hk ▸ h

/-- Any value under the key of a permission is a permission. -/
theorem Vouched.of_relationKey {a i : Int} {v : Val}
    (h : Vouched C past cuts (relationKey a i) v) : Permitted past a i := by
  have htag := h.tag_mem
  rw [tag_relationKey] at htag
  cases v with
  | relation r =>
    obtain ⟨p, hk, tb, htb, q, hq, hqk⟩ := h
    exact ⟨tb, htb, q, hq, hqk.trans hk.symm⟩
  | iface i => exact absurd htag (by simp [Staleness.tags])
  | app a => exact absurd htag (by simp [Staleness.tags])
  | vars vs => exact absurd htag (by simp [Staleness.tags])

end Kinds

/-! ## What the queries answer -/

section Queries

variable {α : Type} (srv : Server) (dc : DbCache)

theorem queryDB_ok {s : Option Stmt} {answer : List α} {r : α}
    (h : (queryDB srv dc s answer).1 = .ok r) : r ∈ answer := by
  unfold queryDB at h
  generalize queryLoop srv s maxRetry dc false none = x at h
  obtain ⟨⟨_ | _, _ | e⟩ | e | p, dc'⟩ := x
  · cases h
  · cases h
  · cases answer with
    | nil => cases h
    | cons r' l =>
      cases h
      exact List.mem_cons_self
  · cases h
  · cases h
  · cases h

theorem dbQuery_ok {n : StmtName} {answer rows : List α}
    (h : (dbQuery srv dc n answer).1 = .ok rows) : rows = answer := by
  unfold dbQuery at h
  generalize dbQueryLoop srv n maxRetry dc false none = x at h
  obtain ⟨⟨_ | _, _ | e⟩ | e | p, dc'⟩ := x <;> cases h
  rfl

theorem cache_loop (redial : Bool) {call : DbCache → Res Err Unit × DbCache}
    (hcall : ∀ dc, ∃ t, (call dc).2 = { dc with tick := t }) :
    ((dbLink srv redial call).loop maxRetry dc false none).2.cache = dc.cache := by
  refine Link.loop_keeps (dbLink srv redial call) (P := fun dc' => dc'.cache = dc.cache)
    (fun dc' h => ?_) (fun dc' h _ => ?_) maxRetry dc false none rfl
  · obtain ⟨t, ht⟩ := hcall dc'
    show (call dc').2.cache = _
    rw [ht]
    exact h
  · exact (conectDB_dbc_cache srv dc').2.trans h

theorem cache_queryDB (s : Option Stmt) (answer : List α) :
    (queryDB srv dc s answer).2.cache = dc.cache := by
  rw [queryDB_snd]
  exact cache_loop srv dc false fun dc => stmtQuery_snd srv dc s

theorem cache_dbQuery (n : StmtName) (answer : List α) :
    (dbQuery srv dc n answer).2.cache = dc.cache := by
  have hsnd : (dbQuery srv dc n answer).2 = (dbQueryLoop srv n maxRetry dc false none).2 := by
    unfold dbQuery
    generalize dbQueryLoop srv n maxRetry dc false none = x
    obtain ⟨⟨_ | _, _ | e⟩ | e | p, dc'⟩ := x <;> rfl
  rw [hsnd, dbQueryLoop_eq]
  exact cache_loop srv dc true fun dc => stmtQuery_snd srv dc (dc.stmt n)

end Queries

/-! ## The pact of the requests -/

section Pact

variable (C : Crypto) (H : NetHttp)

/-- The cache has what the tables had, and what was forwarded was let through. -/
structure Guarded (w : World) : Prop where
  tables : w.tables ∈ w.past
  cache : ∀ e ∈ w.dc.cache.ll, Vouched C w.past w.cuts e.key e.val
  sent : ∀ f ∈ w.sent, Authorised C H w.past w.cuts f

/-- What has been stays so. -/
structure Later (w w' : World) : Prop where
  past : w.past ⊆ w'.past
  cuts : w.cuts ⊆ w'.cuts
  sent : w.sent ⊆ w'.sent

theorem Later.refl (w : World) : Later w w :=
  ⟨List.Subset.refl _, List.Subset.refl _, List.Subset.refl _⟩

theorem Later.trans {u v w : World} (h : Later u v) (h' : Later v w) : Later u w :=
  ⟨List.Subset.trans h.past h'.past, List.Subset.trans h.cuts h'.cuts,
    List.Subset.trans h.sent h'.sent⟩

/-- Nothing new in the cache, and nothing forwarded. -/
structure Quiet (w w' : World) : Prop where
  tables : w'.tables ∈ w'.past ∨ w'.tables = w.tables
  past : w.past ⊆ w'.past
  cuts : w.cuts ⊆ w'.cuts
  sent : w'.sent = w.sent
  cache : w'.dc.cache.ll ⊆ w.dc.cache.ll

variable {C H}

theorem Guarded.of_quiet {w w' : World} (h : Guarded C H w) (hq : Quiet w w') :
    Guarded C H w' ∧ Later w w' := by
  refine ⟨⟨?_, fun e he => ?_, fun f hf => ?_⟩, hq.past, hq.cuts, hq.sent ▸ List.Subset.refl _⟩
  · rcases hq.tables with ht | ht
    · exact ht
    · exact ht ▸ hq.past h.tables
  · exact (h.cache e (hq.cache he)).mono hq.past hq.cuts
  · exact (h.sent f (hq.sent ▸ hf)).mono hq.past hq.cuts

theorem quiet_of_dc {w : World} {dc : DbCache} (h : dc.cache.ll ⊆ w.dc.cache.ll) :
    Quiet w { w with dc := dc } := ⟨Or.inr rfl, List.Subset.refl _, List.Subset.refl _, rfl, h⟩

theorem quiet_of_eq {w w' : World} (ht : w'.tables = w.tables) (hp : w'.past = w.past)
    (hc : w'.cuts = w.cuts) (hs : w'.sent = w.sent) (hdc : w'.dc.cache = w.dc.cache) :
    Quiet w w' :=
  ⟨Or.inr ht, hp ▸ List.Subset.refl _, hc ▸ List.Subset.refl _, hs, hdc ▸ List.Subset.refl _⟩

theorem quiet_asked {α : Type} {r : Res Err α × DbCache} {w w' : World} {a : Res Err α}
    (hcache : r.2.cache = w.dc.cache) (h : Asked r w a w') : Quiet w w' := by
  obtain ⟨-, rfl⟩ := h
  exact quiet_of_dc (hcache ▸ List.Subset.refl _)

/-- The calls that put something into the cache or hand a request on. -/
def Call.tells : Call → Bool
  | .cacheAdd _ _ => true
  | .doRequest _ _ _ _ _ => true
  | _ => false

theorem quiet_serve {c : Call} (hc : c.tells = false) {w w' : World} {a : Ans c}
    (h : serve c w a w') : Quiet w w' := by
  cases c with
  | cacheEvict =>
    obtain ⟨t, rfl⟩ := h
    exact quiet_of_dc fun e he => mem_of_mem_evict he
  | cacheLookup key =>
    obtain ⟨-, rfl⟩ := h
    exact quiet_of_eq rfl rfl rfl rfl rfl
  | cacheAdd key val => cases hc
  | stmt n =>
    obtain ⟨-, rfl⟩ := h
    exact quiet_of_eq rfl rfl rfl rfl rfl
  | selService s path =>
    obtain ⟨srv, h⟩ := h
    exact quiet_asked (cache_queryDB srv w.dc s _) h
  | selIface s id path =>
    obtain ⟨srv, h⟩ := h
    exact quiet_asked (cache_queryDB srv w.dc s _) h
  | selApp s id token =>
    obtain ⟨srv, h⟩ := h
    exact quiet_asked (cache_queryDB srv w.dc s _) h
  | selRelation s appID ifaceID =>
    obtain ⟨srv, h⟩ := h
    exact quiet_asked (cache_queryDB srv w.dc s _) h
  | selVar id =>
    obtain ⟨srv, h | ⟨vs, n, -, -, rfl⟩⟩ := h
    · exact quiet_asked (cache_dbQuery srv w.dc .selVar _) h
    · exact ⟨Or.inr rfl, List.Subset.refl _, List.subset_cons_self _ _, rfl,
        cache_dbQuery srv w.dc .selVar (selVar w.tables id) ▸ List.Subset.refl _⟩
  | getMicroAPPs name =>
    obtain ⟨-, rfl⟩ := h
    exact quiet_of_eq rfl rfl rfl rfl rfl
  | unixNano =>
    obtain rfl := h
    exact quiet_of_eq rfl rfl rfl rfl rfl
  | doRequest session message app iface out => cases hc
  | success app iface tm =>
    obtain rfl := h
    exact quiet_of_eq rfl rfl rfl rfl rfl
  | failed id app iface log =>
    obtain ⟨now, rfl⟩ := h
    exact quiet_of_eq rfl rfl rfl rfl rfl

theorem quiet_drift {w w' : World} (h : Drift w w') : Quiet w w' := by
  cases h with
  | tables tb =>
    exact ⟨Or.inl List.mem_cons_self, List.subset_cons_self _ _, List.Subset.refl _, rfl,
      List.Subset.refl _⟩
  | connection dc hdc => exact quiet_of_dc (hdc ▸ List.Subset.refl _)
  | instances apps => exact quiet_of_eq rfl rfl rfl rfl rfl
  | entrys ifaces apps _ => exact quiet_of_eq rfl rfl rfl rfl rfl
  | errorEntrys => exact quiet_of_eq rfl rfl rfl rfl rfl

variable (C H) in
/-- No request counts on the others leaving something alone. -/
def pact (ι : Type) : Pact ι rules where
  inv := Guarded C H
  le := Later
  away _ _ _ := True
  refl := Later.refl
  trans := Later.trans
  away_refl _ _ := trivial
  away_trans _ _ := trivial
  drift h hd := ⟨(h.of_quiet (quiet_drift hd)).1, (h.of_quiet (quiet_drift hd)).2, fun _ => trivial⟩

end Pact

/-! ## The parts of a request -/

section Parts

variable {C : Crypto} {H : NetHttp} {α β ι : Type} {i : ι}

/-- What holds when there is no error. -/
def OnOk (Q : α → World → Prop) (r : Res Err α) (w : World) : Prop := ∀ a, r = .ok a → Q a w

theorem upholds_ask {post : α → World → Prop} {c : Call} (hc : c.tells = false) {k : Ans c → P α}
    {w : World} (h : ∀ w₁ a w₂, Guarded C H w₁ → serve c w₁ a w₂ → Later w w₂ → Later w₁ w₂ →
      Guarded C H w₂ → Upholds (pact C H ι) i post (k a) w₂) :
    Upholds (pact C H ι) i post (.ask c k) w := by
  intro w₁ hle _ hinv a w₂ hserve
  obtain ⟨hinv₂, hle₂⟩ := hinv.of_quiet (quiet_serve hc hserve)
  exact ⟨hinv₂, hle₂, fun _ _ => trivial, h w₁ a w₂ hinv hserve (Later.trans hle hle₂) hle₂ hinv₂⟩

theorem upholds_andThen {p : P (Res Err α)} {f : α → P (Res Err β)} {Q : α → World → Prop}
    {R : β → World → Prop} {w : World} (hp : Upholds (pact C H ι) i (OnOk Q) p w)
    (hf : ∀ a w', Later w w' → Q a w' → Upholds (pact C H ι) i (OnOk R) (f a) w') :
    Upholds (pact C H ι) i (OnOk R) (andThen p f) w := by
  refine hp.bind fun r w' hle hr => ?_
  cases r with
  | ok a => exact hf a w' hle (hr a rfl)
  | err e => exact fun _ h => nomatch h
  | panic why => exact fun _ h => nomatch h

/-- A lookup, when what its miss finds may be put into the cache. -/
theorem upholds_lookup {key : String} {cast : Val → Option β} {miss : P (Res Err (β × Val))}
    {Q : β → World → Prop}
    (hcast : ∀ v b w, Vouched C w.past w.cuts key v → cast v = some b → Q b w)
    (hmiss : ∀ w, Upholds (pact C H ι) i
      (OnOk fun r w => Vouched C w.past w.cuts key r.2 ∧ cast r.2 = some r.1) miss w) (w : World) :
    Upholds (pact C H ι) i (OnOk Q) (lookup key cast miss) w := by
  refine upholds_ask rfl fun _ _ _ _ _ _ _ _ =>
    upholds_ask rfl fun w₁ v w₂ _ hserve _ _ hinv => ?_
  obtain ⟨hv, rfl⟩ := hserve
  cases v with
  | some v =>
    obtain ⟨e, he, rfl, rfl⟩ := exists_mem_of_lookup hv.symm
    have hvouched := hinv.cache e he
    intro b hb
    refine hcast e.val b _ hvouched ?_
    revert hb
    cases cast e.val with
    | none => exact fun h => nomatch h
    | some b' => exact fun h => congrArg some (Res.ok.inj h)
  | none =>
    refine upholds_andThen (hmiss _) fun r w₃ _ hr w₄ hle₄ _ hinv₄ _ w₅ hserve₅ => ?_
    obtain ⟨t', rfl⟩ := hserve₅
    have hvouched := hr.1.mono hle₄.past hle₄.cuts
    refine ⟨⟨hinv₄.tables, fun e he => ?_, hinv₄.sent⟩, ⟨List.Subset.refl _, List.Subset.refl _,
      List.Subset.refl _⟩, fun _ _ => trivial, fun b hb => ?_⟩
    · rcases mem_of_mem_add he with he | ⟨hk, hval⟩
      · exact hinv₄.cache e he
      · rw [hk, hval]
        exact hvouched
    · cases hb
      exact hcast r.2 r.1 _ hvouched hr.2

theorem mem_of_asked {srv : Server} {dc : DbCache} {s : Option Stmt} {answer : List α} {r : α}
    {a : Res Err α} {w w' : World} (h : Asked (queryDB srv dc s answer) w a w') (ha : a = .ok r) :
    r ∈ answer ∧ w'.past = w.past := by
  obtain ⟨h | ⟨e, h⟩, rfl⟩ := h
  · exact ⟨queryDB_ok srv dc (h ▸ ha), rfl⟩
  · rw [ha] at h
    cases h

theorem upholds_getApplication {id : Int} {token : String} (hid : tokenID C token = some id)
    (w : World) : Upholds (pact C H ι) i
      (OnOk fun a w => tokenID C token = some a.id ∧ Admitted C w.past a)
      (getApplication id token) w := by
  refine upholds_lookup (fun v b w hv hb => ?_) (fun w => ?_) w
  · cases v with
    | app a =>
      cases hb
      obtain ⟨rfl, hadmitted⟩ := hv.of_appKey
      exact ⟨hid, hadmitted⟩
    | iface i => cases hb
    | relation r => cases hb
    | vars vs => cases hb
  · refine upholds_ask rfl fun _ s _ _ _ _ _ _ =>
      upholds_ask rfl fun w₁ r w₂ hinv hserve _ _ _ => ?_
    obtain ⟨srv, hasked⟩ := hserve
    intro b hb
    cases r with
    | ok r =>
      cases hb
      obtain ⟨hmem, hpast⟩ := mem_of_asked hasked rfl
      exact ⟨⟨rfl, w₁.tables, hpast ▸ hinv.tables, token, hid, hmem⟩, rfl⟩
    | err e => cases hb
    | panic why => cases hb

theorem upholds_getApp (token : String) (w : World) :
    Upholds (pact C H ι) i (OnOk fun a w => tokenID C token = some a.id ∧ Admitted C w.past a)
      (getApp C token) w := by
  unfold getApp
  cases hd : aesDecrypt C token aesKey with
  | err e => exact fun _ h => nomatch h
  | panic why => exact fun _ h => nomatch h
  | ok buf =>
    simp only
    by_cases hn : (varint buf).2 < 1
    · rw [if_pos hn]
      exact fun _ h => nomatch h
    · rw [if_neg hn]
      have hid : tokenID C token = some (varint buf).1 := by simp [tokenID, hd, hn]
      exact upholds_getApplication hid w

theorem upholds_cachedInterface (p : UrlPath) (w : World) :
    Upholds (pact C H ι) i (OnOk fun i w => Known w.past p.text i) (cachedInterface p.text) w := by
  refine upholds_lookup (fun v b w hv hb => ?_) (fun w => ?_) w
  · cases v with
    | iface i =>
      cases hb
      exact hv.of_path
    | app a => cases hb
    | relation r => cases hb
    | vars vs => cases hb
  · unfold interfaceMiss
    match hsplit : split p.text '/' with
    | [] => exact fun _ h => nomatch h
    | [_] => exact fun _ h => nomatch h
    | [_, _] => exact fun _ h => nomatch h
    | p0 :: p1 :: p2 :: ps =>
      -- the service first, of the tables as they are then
      refine upholds_ask rfl fun _ s _ _ _ _ _ _ => upholds_andThen
        (Q := fun service w => ∃ tb ∈ w.past, service ∈ selService tb p1)
        (upholds_ask rfl fun w₁ r w₂ hinv hserve _ hle _ service hr => ?_)
        fun service w₁ hle₁ hservice => ?_
      · obtain ⟨srv, hasked⟩ := hserve
        exact ⟨w₁.tables, hle.past hinv.tables, (mem_of_asked hasked hr).1⟩
      · -- then the interface, and the service is still one that was there
        refine upholds_ask rfl fun _ s w₂ _ _ hle₂ _ _ =>
          upholds_ask rfl fun w₃ r w₄ hinv hserve hle₄ hle _ b hb => ?_
        obtain ⟨srv, hasked⟩ := hserve
        cases r with
        | ok r =>
          cases hb
          have hmem := (mem_of_asked hasked rfl).1
          obtain ⟨tb, htb, hservice⟩ := hservice
          have hpast := (Later.trans hle₂ hle₄).past
          exact ⟨⟨⟨p, rfl⟩, p0, p1, p2, ps, hsplit, rfl, ⟨tb, hpast htb, hservice⟩, w₃.tables,
            hle.past hinv.tables, hmem⟩, rfl⟩
        | err e => cases hb
        | panic why => cases hb

theorem upholds_validateRelation (appID ifaceID : Int) (w : World) :
    Upholds (pact C H ι) i (OnOk fun _ w => Permitted w.past appID ifaceID)
      (validateRelation appID ifaceID) w := by
  refine upholds_lookup (fun v b w hv _ => hv.of_relationKey) (fun w => ?_) w
  refine upholds_ask rfl fun _ s _ _ _ _ _ _ => upholds_ask rfl fun w₁ r w₂ hinv hserve _ hle _ =>
    fun b hb => ?_
  obtain ⟨srv, hasked⟩ := hserve
  cases r with
  | ok id =>
    cases hb
    have hmem := (mem_of_asked hasked rfl).1
    have hrelated : Related w₁.tables (appID, ifaceID) := by
      obtain ⟨row, hrow, -⟩ := List.mem_map.mp hmem
      obtain ⟨hrow, hpair⟩ := List.mem_filter.mp hrow
      exact ⟨row, hrow, by simpa using hpair⟩
    exact ⟨⟨(appID, ifaceID), rfl, w₁.tables, hle.past hinv.tables, (appID, ifaceID), hrelated,
      rfl⟩, rfl⟩
  | err e => cases hb
  | panic why => cases hb

theorem upholds_getVariable (id : Int) (w : World) :
    Upholds (pact C H ι) i (OnOk fun vs w => ReadVars w.past w.cuts id vs) (getVariable id) w := by
  refine upholds_lookup (fun v b w hv hb => ?_) (fun w => ?_) w
  · cases v with
    | vars vs =>
      cases hb
      exact hv.of_varKey
    | iface i => cases hb
    | app a => cases hb
    | relation r => cases hb
  · refine upholds_ask rfl fun w₁ r w₂ hinv hserve _ hle _ b hb => ?_
    obtain ⟨srv, hasked⟩ := hserve
    cases r with
    | err e => cases hb
    | panic why => cases hb
    | ok rows =>
      replace hb : varsOf rows = .ok b := hb
      unfold varsOf at hb
      cases hscan : scanVars rows with
      | none =>
        rw [hscan] at hb
        cases hb
      | some vs =>
        rw [hscan] at hb
        cases hb
        refine ⟨⟨id, rfl, w₁.tables, hle.past hinv.tables, rows, ?_⟩, rfl⟩
        rcases hasked with ⟨h | ⟨e, h⟩, rfl⟩ | ⟨all, n, hall, hcut, rfl⟩
        · obtain rfl := dbQuery_ok srv w₁.dc h.symm
          exact ⟨List.prefix_rfl, Or.inl rfl, hscan⟩
        · cases h
        · -- the rows were cut short, which is on record
          obtain rfl := dbQuery_ok srv w₁.dc hall
          obtain rfl := Res.ok.inj hcut
          exact ⟨List.take_prefix _ _, Or.inr List.mem_cons_self, hscan⟩

/-- `GetInterface` makes sure of the token, the interface, the method and the permission. -/
theorem upholds_getInterface (m : Message) (w : World) :
    Upholds (pact C H ι) i (OnOk fun r w =>
        tokenID C (firstValue (m.header "Token")) = some r.1.id ∧ Admitted C w.past r.1 ∧
        Known w.past m.path.text r.2 ∧
        (r.2.method = restful ∨ m.method = methodString r.2.method) ∧
        (r.2.service.validate = true → Permitted w.past r.1.id r.2.id))
      (getInterface C m) w := by
  unfold getInterface
  by_cases htoken : firstValue (m.header "Token") = ""
  · simp only [if_pos htoken]
    exact fun _ h => nomatch h
  simp only [if_neg htoken]
  refine upholds_andThen (upholds_getApp _ w) fun app w₁ _ ⟨hid, happ⟩ =>
    upholds_andThen (upholds_cachedInterface m.path w₁) fun iface w₂ hle₂ hiface => ?_
  have happ₂ := happ.mono hle₂.past
  by_cases hmethod : iface.method ≠ restful ∧ m.method ≠ methodString iface.method
  · rw [if_pos hmethod]
    exact fun _ h => nomatch h
  have hmethod' : iface.method = restful ∨ m.method = methodString iface.method := by
    by_contra hno
    exact hmethod (not_or.mp hno)
  rw [if_neg hmethod, permit]
  by_cases hv : iface.service.validate = false
  · rw [if_pos hv]
    intro r hr
    cases hr
    exact ⟨hid, happ₂, hiface, hmethod', fun h => absurd (hv.symm.trans h) (by decide)⟩
  · rw [if_neg hv]
    refine (upholds_validateRelation app.id iface.id w₂).bind fun r w₃ hle₃ hr b hb => ?_
    cases r with
    | ok _ =>
      cases hb
      exact ⟨hid, happ₂.mono hle₃.past, hiface.mono hle₃.past, hmethod', fun _ => hr () rfl⟩
    | err e => cases e <;> cases hb
    | panic why => cases hb

/-- The values that passed are those of the request as it came. -/
theorem meets_of_validateWith {vars : List Variable} {m : Message}
    (hok : (Validation.validateWith H vars m.received).1 = .ok ()) :
    ∀ v ∈ vars, ValueMeets v (valueAt H.canonical (Validation.input H m) v) := by
  obtain ⟨-, hwith⟩ | ⟨-, e, req, hwith⟩ := Validation.validateWith_cases H m vars
  · rw [hwith, Validation.validateVars_eq H vars _ (Validation.start_frame H m vars).2,
      validateVars_ok_iff] at hok
    by_cases hform : ∃ v ∈ vars, v.postion = postionFORM
    · obtain ⟨form, hrestored⟩ := Validation.restored_frame H m
      intro v hv
      have hmeets := hok v hv
      rw [Validation.start_of_mem H m hform] at hmeets
      have hquery : (Validation.restored H m).query = m.query := by rw [hrestored]
      have hheader : (Validation.restored H m).header = m.header := by rw [hrestored]
      simpa only [valueAt, Validation.view, Validation.input, hquery, hheader] using hmeets
    · -- without a variable in the form it does not matter what the form is
      intro v hv
      have hmeets := hok v hv
      have hnot : v.postion ≠ postionFORM := fun h => hform ⟨v, hv, h⟩
      rw [Validation.start_of_not_mem H m hform] at hmeets
      simpa only [valueAt, Validation.view, Validation.input, Message.received, if_neg hnot]
        using hmeets
  · rw [hwith] at hok
    cases hok

theorem upholds_validate (iface : Interface) (m : Message) (w : World) :
    Upholds (pact C H ι) i (OnOk fun _ w => ∃ vs, ReadVars w.past w.cuts iface.id vs ∧
        ∀ v ∈ vs, ValueMeets v (valueAt H.canonical (Validation.input H m) v))
      (validate H iface m) w := by
  refine upholds_andThen (upholds_getVariable iface.id w) fun vars w₁ _ hvars req hreq => ?_
  cases hok : (Validation.validateWith H vars m.received).1 with
  | ok _ => exact ⟨vars, hvars, meets_of_validateWith hok⟩
  | err e =>
    rw [hok] at hreq
    cases hreq
  | panic why =>
    rw [hok] at hreq
    cases hreq

theorem headers_of_buildRequest {N : NetUrl} {gitTime id : String} {apps : Apps} {now : Int}
    {iface : Interface} {req : HttpRequest} {out : Validation.Sent}
    (h : Validation.buildRequest N gitTime apps now id iface req = .ok out) :
    out.header "Session" = [id] ∧ out.header "Token" = [] := by
  unfold Validation.buildRequest at h
  cases ha : Gateway.address apps now iface req.path.text with
  | err e =>
    rw [ha] at h
    cases h
  | panic why =>
    rw [ha] at h
    cases h
  | ok backend =>
    rw [ha] at h
    replace h : Validation.requestTo N gitTime id backend req = .ok out := h
    unfold Validation.requestTo at h
    split at h
    · cases h
    · cases h
      exact ⟨rfl, rfl⟩

theorem upholds_buildRequest (N : NetUrl) (gitTime id : String) (iface : Interface)
    (req : HttpRequest) (w : World) : Upholds (pact C H ι) i
      (OnOk fun out _ => out.header "Session" = [id] ∧ out.header "Token" = [])
      (buildRequest N gitTime id iface req) w := by
  unfold buildRequest
  split
  · refine upholds_ask rfl fun _ apps w₁ _ _ _ _ _ => ?_
    cases apps with
    | none => exact fun _ h => nomatch h
    | some apps => exact upholds_ask rfl fun _ now _ _ _ _ _ _ out h => headers_of_buildRequest h
  · exact fun out h => headers_of_buildRequest h

/-- An answer of the backend in the reply is one to this request. -/
def Relays (id : String) (m : Message) (reply : Reply) (w : World) : Prop :=
  ∀ code body, reply = .backend code body →
    ∃ f ∈ w.sent, f.session = id ∧ f.message = m ∧ f.answer = .ok (body, code)

theorem upholds_forward {id : String} {m : Message} {app : Application} {iface : Interface}
    {out : Validation.Sent} {w : World}
    (h : ∀ a, Authorised C H w.past w.cuts ⟨id, m, app, iface, out, a⟩) :
    Upholds (pact C H ι) i (Relays id m) (forward id m app iface out) w := by
  refine upholds_ask rfl fun _ b w₁ _ _ hle₁ _ _ w₂ hle₂ _ hinv a w₃ hserve => ?_
  obtain rfl := hserve
  have hle := Later.trans hle₁ hle₂
  refine ⟨⟨hinv.tables, hinv.cache, fun f hf => ?_⟩, ⟨List.Subset.refl _, List.Subset.refl _,
    List.subset_cons_self _ _⟩, fun _ _ => trivial, ?_⟩
  · rcases List.mem_cons.mp hf with rfl | hf
    · exact (h a).mono hle.past hle.cuts
    · exact hinv.sent f hf
  -- what follows sends no more, and the request stays on record
  have hrelays : ∀ rb code, a = .ok (rb, code) → ∀ w' : World,
      (⟨id, m, app, iface, out, a⟩ :: w₂.sent) ⊆ w'.sent → Relays id m (.backend code rb) w' := by
    rintro rb code rfl w' hsub _ _ ⟨⟩
    exact ⟨_, hsub List.mem_cons_self, rfl, rfl, rfl⟩
  refine upholds_ask rfl fun _ now w₄ _ _ hle₄ _ _ => ?_
  cases a with
  | error e => exact upholds_ask rfl fun _ _ _ _ _ _ _ _ => fun _ _ h => nomatch h
  | ok r =>
    simp only
    split
    · exact upholds_ask rfl fun _ _ w₅ _ _ hle₅ _ _ =>
        hrelays r.1 r.2 rfl w₅ (Later.trans hle₄ hle₅).sent
    · exact upholds_ask rfl fun _ _ w₅ _ _ hle₅ _ _ =>
        hrelays r.1 r.2 rfl w₅ (Later.trans hle₄ hle₅).sent

theorem upholds_orReply {id : String} {m : Message} {p : P (Res Err α)} {onErr : Err → Reply}
    (herr : ∀ e code body, onErr e ≠ .backend code body) {f : α → P Reply} {Q : α → World → Prop}
    {w : World} (hp : Upholds (pact C H ι) i (OnOk Q) p w)
    (hf : ∀ a w', Later w w' → Q a w' → Upholds (pact C H ι) i (Relays id m) (f a) w') :
    Upholds (pact C H ι) i (Relays id m) (orReply p onErr f) w := by
  refine hp.bind fun r w' hle hr => ?_
  cases r with
  | ok a => exact hf a w' hle (hr a rfl)
  | err e => exact fun code body h => absurd h (herr e code body)
  | panic why => exact fun _ _ h => nomatch h

theorem refusal_ne (e : Err) (code : Int) (body : List UInt8) : refusal e ≠ .backend code body := by
  cases e <;> exact nofun

theorem json_ne (status : Int) (e : Err) (code : Int) (body : List UInt8) :
    Reply.json status e ≠ .backend code body := nofun

theorem upholds_serveHTTP (N : NetUrl) (gitTime id : String) (m : Message) (w : World) :
    Upholds (pact C H ι) i (Relays id m) (serveHTTP C N H gitTime id m) w := by
  unfold serveHTTP
  cases m.bodyErr with
  | some e => exact fun _ _ h => nomatch h
  | none =>
    refine upholds_orReply refusal_ne (upholds_getInterface m w)
      fun r w₁ _ ⟨htoken, happ, hiface, hmethod, hperm⟩ =>
        upholds_orReply (json_ne _) (upholds_validate r.2 m w₁)
          fun req w₂ hle₂ ⟨vs, hvs, hmeets⟩ =>
            upholds_orReply (json_ne _)
              (upholds_buildRequest N gitTime id r.2 req w₂)
              fun out w₃ hle₃ ⟨hsession, hnone⟩ => upholds_forward fun a => ?_
    have hle := (Later.trans hle₂ hle₃).past
    exact ⟨htoken, happ.mono hle, hiface.mono hle, hmethod, fun hv => (hperm hv).mono hle,
      ⟨vs, hvs.mono hle₃.past hle₃.cuts, hmeets⟩, hsession, hnone⟩

end Parts

/-! ## Any number of requests -/

section Requests

variable {ι : Type} [DecidableEq ι] (C : Crypto) (N : NetUrl) (H : NetHttp) (gitTime : String)
  (ids : ι → String) (ms : ι → Message) (tb : Tables) (dc : DbCache) (apps : Apps)

/-- The gateway with these requests, none of which has begun. -/
def gateway : Crew ι Ans Reply World :=
  ⟨fun i => serveHTTP C N H gitTime (ids i) (ms i), start tb dc apps⟩

/-- Only what was let through is forwarded, and a client gets the answer to its own request. -/
def Mediates : Prop :=
  ∀ tr t, (gateway C N H gitTime ids ms tb dc apps).Run rules tr t →
    (∀ f ∈ t.world.sent, Authorised C H t.world.past t.world.cuts f) ∧
      ∀ i reply, t.prog i = .done reply → Relays (ids i) (ms i) reply t.world

theorem guarded_start : Guarded C H (start tb dc apps) where
  tables := List.mem_singleton_self _
  cache _ he := nomatch he
  sent _ hf := nomatch hf

/-- In every run of any requests, however they are interleaved and whatever happens to the tables
    and the connection meanwhile. -/
theorem serveHTTP_mediated : Mediates C N H gitTime ids ms tb dc apps := by
  intro tr t hrun
  have hstay : ∀ i reply (w w' : World), Relays (ids i) (ms i) reply w → Later w w' →
      True → Relays (ids i) (ms i) reply w' := by
    intro i reply w w' h hle _ code body hreply
    obtain ⟨f, hf, hrest⟩ := h code body hreply
    exact ⟨f, hle.sent hf, hrest⟩
  obtain ⟨hinv, hprogs⟩ := Crew.Run.upholds (P := pact C H ι) hstay
    (s := gateway C N H gitTime ids ms tb dc apps) (guarded_start C H tb dc apps)
    (fun i => upholds_serveHTTP N gitTime (ids i) (ms i) _) hrun
  refine ⟨hinv.sent, fun i reply hdone => ?_⟩
  have hi := hprogs i
  rw [hdone] at hi
  exact hi

end Requests

end Doodle.Repeater.Serve
