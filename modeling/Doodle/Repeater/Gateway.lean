/-
  The gateway's path from a request to a backend: `GetInterface` and `buildRequest` of
  `repeater/repeater.go`, over the cache of `dbCache`.

  A history is any sequence of requests, of `getVariable` calls (made by `Validate` after a
  request was accepted) and of entries leaving the cache. The four kinds of cache entries have
  keys that start differently (`tag`), so what a history leaves in the cache says where it came
  from: `Binds`, kept by every step (`sane_step`) and so by every history (`sane_run`).

  * `getInterface_sane`: in a sane state `dbCache.getInterface` answers what the tables answer.
  * `Gateway.getInterface_spec`: a request is only accepted with the interface of the tables.
  * `Gateway.ok_of_fetch`: a request with a valid token, the interface's method and the permission
    is accepted.
  * `Gateway.buildRequest_faas`: a FaaS request goes to one of the listed instances, with the
    interface's path.
-/
import Doodle.Go.Url
import Doodle.Repeater.Backend
import Doodle.Repeater.Permission

namespace Doodle.Repeater

open Doodle.Go Doodle.Crab Doodle.Lib Doodle.Util Doodle.Service

/-! ## Requests -/

/-- `req.URL.Path` as `net/http` reads it: empty, `*`, or from a slash on. -/
structure UrlPath where
  text : String
  shape : text = "" ∨ text = "*" ∨ text.toList.head? = some '/'

/-- `http.Request`, the parts the gateway reads; headers under their canonical names. -/
structure Request where
  method : String
  path : UrlPath
  rawQuery : String
  header : String → String

/-- What `buildRequest` makes of a request: where it goes and with which headers. -/
structure Outgoing where
  url : Url
  host : String
  header : String → String

/-- `server.RESTful` -/
def restful : Int := 4

/-- `Method.String` -/
def methodString (m : Int) : String :=
  if m = 0 then "GET" else if m = 1 then "POST" else if m = 2 then "PUT" else if m = 3 then "DELETE"
  else if m = restful then "RESTful" else "NIL"

/-- The clock in `Get` and in `Add`, for the three lookups of one `GetInterface`. -/
structure Times where
  app : Int × Int
  iface : Int × Int
  relation : Int × Int

namespace Gateway

def getInterface (C : Crypto) (srv : Server) (tb : Tables) (t : Times) (dc : DbCache)
    (req : Request) : Res Err (Application × Interface) × DbCache :=
  if req.header "Token" = "" then (.err (.text "need Token in Header"), dc)
  else
    match getApp C srv tb t.app.1 t.app.2 dc (req.header "Token") with
    | (.err e, dc) => (.err e, dc)
    | (.panic p, dc) => (.panic p, dc)
    | (.ok app, dc) =>
      match Repeater.getInterface srv tb t.iface.1 t.iface.2 dc req.path.text with
      | (.err e, dc) => (.err e, dc)
      | (.panic p, dc) => (.panic p, dc)
      | (.ok iface, dc) =>
        if iface.method ≠ restful ∧ req.method ≠ methodString iface.method then
          (.err (.text ("invalid method:" ++ req.method ++ ", need:" ++ methodString iface.method)),
            dc)
        else if iface.service.validate = false then (.ok (app, iface), dc)
        else
          match validateRelation srv tb t.relation.1 t.relation.2 dc app.id iface.id with
          | (.ok (), dc) => (.ok (app, iface), dc)
          | (.err .notFound, dc) => (.err .forbidden, dc)
          | (.err e, dc) => (.err e, dc)
          | (.panic p, dc) => (.panic p, dc)

/-- `apps[now % len(apps)]`, with Go's remainder. -/
def pick (apps : List MicroAPP) (now : Int) : Res Err MicroAPP :=
  if apps.isEmpty then .panic "integer divide by zero"
  else if now.tmod apps.length < 0 then .panic "index out of range"
  else
    match apps[(now.tmod apps.length).toNat]? with
    | some app => .ok app
    | none => .panic "index out of range"

/-- The backend address of a FaaS service: one of its instances, and the interface's path. -/
def faasBackend (apps : Apps) (now : Int) (iface : Interface) : Res Err String :=
  match getMicroAPPs apps iface.backend with
  | none => .err .notFound
  | some l => do
    let app ← pick l now
    pure ("http://" ++ app.host ++ ":" ++ toString app.port ++ iface.path)

/-- The backend address of any other service: what follows the interface in the request path is
    appended. -/
def plainBackend (iface : Interface) (path : String) : String :=
  match index path iface.path with
  | none => iface.backend
  | some idx =>
    let rest := sliceFrom path (idx + iface.path.length)
    if 0 < idx ∧ 1 < rest.length then
      if iface.backend.toList.getLast? = some '/' then iface.backend ++ sliceFrom rest 1
      else iface.backend ++ rest
    else iface.backend

/-- `buildRequest`, where `now` is `time.Now().UnixNano()` and `gitTime` is `util.GitTime`. -/
def buildRequest (N : NetUrl) (gitTime : String) (apps : Apps) (now : Int) (id : String)
    (iface : Interface) (req : Request) : Res Err Outgoing := do
  let backend ← if iface.service.version = 1 then faasBackend apps now iface
    else .ok (plainBackend iface req.path.text)
  match N.parse (withArgs backend (N.encodeQuery req.rawQuery)) with
  | none => .err (.text "parse")
  | some url =>
    .ok ⟨url, url.host, fun h =>
      if h = "Session" then id else if h = "Token" then ""
      else if h = "User-Agent" then "APIGate " ++ gitTime else req.header h⟩

end Gateway

/-! ## What the tables answer -/

/-- `getInterface` without the cache. -/
def fetchInterface (tb : Tables) (key : String) : Option Interface :=
  match split key '/' with
  | _ :: p1 :: p2 :: _ =>
    (selService tb p1).head?.bind fun p =>
      let path := ifacePath p.version key p1 p2
      (selIface tb p.id path).head?.map fun (id, method, backend, email) =>
        ⟨id, method, backend, email, path, p⟩
  | _ => none

/-- The error of `getInterface` when the tables have no answer. -/
def missErr (key : String) : Err :=
  match split key '/' with
  | _ :: _ :: _ :: _ => .notFound
  | _ => .invalidPath

theorem interfaceMiss_eq (srv : Server) (hs : srv.Reliable) (tb : Tables) (key : String)
    (dc : DbCache) (h : Live dc) : ∃ n, interfaceMiss srv tb key dc =
      (orErr ((fetchInterface tb key).map fun i => (i, Val.iface i)) (missErr key),
        { dc with tick := n }) := by
  unfold interfaceMiss fetchInterface missErr
  generalize split key '/' = ps
  match ps with
  | [] => exact ⟨dc.tick, rfl⟩
  | [_] => exact ⟨dc.tick, rfl⟩
  | [_, _] => exact ⟨dc.tick, rfl⟩
  | _ :: p1 :: p2 :: _ =>
    simp only
    rw [queryDB_live srv hs dc h]
    cases hp : (selService tb p1).head? with
    | none => exact ⟨dc.tick + 1, rfl⟩
    | some p =>
      have hlive : Live { dc with tick := dc.tick + 1 } := h
      simp only [orErr, Option.bind_some]
      rw [queryDB_live srv hs _ hlive, onRow_orErr, Option.map_map]
      exact ⟨dc.tick + 1 + 1, rfl⟩

theorem interfaceMiss_live (srv : Server) (hs : srv.Reliable) (tb : Tables) (key : String)
    (dc : DbCache) (h : Live dc) : ∃ e n, interfaceMiss srv tb key dc =
      (orErr ((fetchInterface tb key).map fun i => (i, Val.iface i)) e, { dc with tick := n }) :=
  ⟨missErr key, interfaceMiss_eq srv hs tb key dc h⟩

/-! ## What a history leaves in the cache -/

/-- The character a cache key starts with. -/
def tag (key : String) : Option Char := key.toList.head?

theorem tag_appKey (id : Int) : tag (appKey id) = some '\x01' := by
  simp [tag, appKey]

theorem tag_varKey (id : Int) : tag (varKey id) = some '\x02' := by
  simp [tag, varKey]

theorem tag_relationKey (a i : Int) : tag (relationKey a i) = some '\x03' := by
  simp [tag, relationKey]

theorem UrlPath.tag_text (p : UrlPath) :
    tag p.text = none ∨ tag p.text = some '*' ∨ tag p.text = some '/' := by
  rcases p.shape with h | h | h
  · exact Or.inl (by rw [h]; rfl)
  · exact Or.inr (Or.inl (by rw [h]; rfl))
  · exact Or.inr (Or.inr h)

/-- Who put a value under a key. -/
def Binds (tb : Tables) (key : String) : Val → Prop
  | .iface i => ∃ p : UrlPath, key = p.text ∧ fetchInterface tb p.text = some i
  | .app a => key = appKey a.id
  | .relation _ => ∃ a i, key = relationKey a i
  | .vars _ => ∃ id, key = varKey id

theorem Binds.of_path {tb : Tables} {p : UrlPath} {v : Val} (h : Binds tb p.text v) :
    ∃ i, v = .iface i ∧ fetchInterface tb p.text = some i := by
  have hp := p.tag_text
  cases v with
  | iface i =>
    obtain ⟨p', hp', hf⟩ := h
    exact ⟨i, rfl, hp' ▸ hf⟩
  | app a =>
    rw [show p.text = appKey a.id from h, tag_appKey] at hp
    exact absurd hp (by decide)
  | relation r =>
    obtain ⟨a, i, hk⟩ := h
    rw [hk, tag_relationKey] at hp
    exact absurd hp (by decide)
  | vars vs =>
    obtain ⟨id, hk⟩ := h
    rw [hk, tag_varKey] at hp
    exact absurd hp (by decide)

theorem Binds.of_appKey {tb : Tables} {id : Int} {v : Val} (h : Binds tb (appKey id) v) :
    ∃ a : Application, v = .app a ∧ a.id = id := by
  cases v with
  | iface i =>
    obtain ⟨p, hp, -⟩ := h
    have := p.tag_text
    rw [← hp, tag_appKey] at this
    exact absurd this (by decide)
  | app a => exact ⟨a, rfl, (appKey_inj h).symm⟩
  | relation r =>
    obtain ⟨a, i, hk⟩ := h
    have := congrArg tag hk
    rw [tag_appKey, tag_relationKey] at this
    exact absurd this (by decide)
  | vars vs =>
    obtain ⟨id', hk⟩ := h
    have := congrArg tag hk
    rw [tag_appKey, tag_varKey] at this
    exact absurd this (by decide)

/-- A live connection, and a cache whose values are under their own keys. -/
structure Sane (tb : Tables) (dc : DbCache) : Prop where
  live : Live dc
  binds : ∀ k v, dc.cache.table k = some v → Binds tb k v

theorem Sane.of_shrinks {tb : Tables} {dc : DbCache} {cache : Cache Val} (n : Nat) (h : Sane tb dc)
    (hs : Shrinks cache.table dc.cache.table) : Sane tb { dc with cache := cache, tick := n } := by
  refine ⟨h.live, fun k v hv => ?_⟩
  have hv' : cache.table k = some v := hv
  rcases hs k with hk | hk
  · exact h.binds k v (hk ▸ hv')
  · rw [hk] at hv'
    cases hv'

/-- One lookup in a sane state: the state after it is sane, and the answer is a value bound under
    the key or what the miss found. -/
theorem Sane.lookupVia {β : Type} {tb : Tables} {dc : DbCache} (h : Sane tb dc) (tg ta : Int)
    (key : String) (cast : Val → Option β) (miss : DbCache → Res Err (β × Val) × DbCache)
    (found : Option (β × Val))
    (hm : ∀ dc, Live dc → ∃ e n, miss dc = (orErr found e, { dc with tick := n }))
    (hb : ∀ b v, found = some (b, v) → Binds tb key v) :
    Sane tb (lookupVia tg ta dc key cast miss).2 ∧
      ((∃ v, Binds tb key v ∧ (lookupVia tg ta dc key cast miss).1 =
          match cast v with | some b => Res.ok b | none => .panic "interface conversion") ∨
        ∃ e, (lookupVia tg ta dc key cast miss).1 = orErr (found.map Prod.fst) e) := by
  have hev := shrinks_evict dc.cache tg
  have hsane := h.of_shrinks dc.tick hev
  obtain ⟨e, n, hm⟩ := hm _ hsane.live
  rcases lookupVia_cases tg ta dc key cast miss found e n hm with
    ⟨v, hl, he⟩ | ⟨hl, b, v, hf, he⟩ | ⟨hl, hf, he⟩
  · rw [he]
    exact ⟨hsane, Or.inl ⟨v, hsane.binds key v hl, rfl⟩⟩
  · rw [he]
    refine ⟨⟨h.live, fun k u hu => ?_⟩, Or.inr ⟨e, by rw [hf]; rfl⟩⟩
    have hu' : ((dc.cache.evict tg).add ta key v).table k = some u := hu
    rw [table_add] at hu'
    by_cases hk : k = key
    · simp only [Memo.set, hk, if_true, Option.some.injEq] at hu'
      rw [hk, ← hu']
      exact hb b v hf
    · simp only [Memo.set, if_neg hk] at hu'
      exact hsane.binds k u hu'
  · rw [he]
    exact ⟨h.of_shrinks n hev, Or.inr ⟨e, by rw [hf]; rfl⟩⟩

section Lookups

variable {srv : Server} (hs : srv.Reliable) {tb : Tables} {dc : DbCache} (h : Sane tb dc)
include hs h

/-- In a sane state `getInterface` answers what the tables answer. -/
theorem getInterface_sane (tg ta : Int) (p : UrlPath) :
    Sane tb (getInterface srv tb tg ta dc p.text).2 ∧
      ∃ e, (getInterface srv tb tg ta dc p.text).1 = orErr (fetchInterface tb p.text) e := by
  obtain ⟨hsane, hans⟩ := h.lookupVia tg ta p.text Val.iface? (interfaceMiss srv tb p.text)
    ((fetchInterface tb p.text).map fun i => (i, Val.iface i))
    (fun dc hl => interfaceMiss_live srv hs tb p.text dc hl) (by
      intro b v hf
      obtain ⟨i, hi, hv⟩ := Option.map_eq_some_iff.mp hf
      obtain ⟨rfl, rfl⟩ := Prod.mk.inj hv
      exact ⟨p, rfl, hi⟩)
  refine ⟨hsane, ?_⟩
  rcases hans with ⟨v, hv, ha⟩ | ⟨e, ha⟩
  · obtain ⟨i, rfl, hi⟩ := hv.of_path
    exact ⟨.notFound, by rw [hi]; exact ha⟩
  · refine ⟨e, ha.trans ?_⟩
    rw [Option.map_map]
    exact congrArg (fun o => orErr o e) (by cases fetchInterface tb p.text <;> rfl)

/-- In a sane state an application that holds the token is found. -/
theorem getApplication_sane (tg ta : Int) (id : Int) (token : String) :
    Sane tb (getApplication srv tb tg ta dc id token).2 ∧
      (Holds tb id token →
        ∃ a : Application, (getApplication srv tb tg ta dc id token).1 = .ok a ∧ a.id = id) := by
  obtain ⟨hsane, hans⟩ := h.lookupVia tg ta (appKey id) Val.app?
    (fun dc => onRow (fun r => (⟨id, r.1, r.2⟩, Val.app ⟨id, r.1, r.2⟩))
      (queryDB srv dc (dc.stmt .selApp) (selApp tb id token)))
    ((selApp tb id token).head?.map fun r => (⟨id, r.1, r.2⟩, Val.app ⟨id, r.1, r.2⟩))
    (fun dc hl => ⟨_, _, by rw [queryDB_live srv hs dc hl, onRow_orErr]⟩) (by
      intro b v hf
      obtain ⟨r, -, hr⟩ := Option.map_eq_some_iff.mp hf
      obtain ⟨-, rfl⟩ := Prod.mk.inj hr
      rfl)
  refine ⟨hsane, fun hh => ?_⟩
  rcases hans with ⟨v, hv, ha⟩ | ⟨e, ha⟩
  · obtain ⟨a, rfl, hid⟩ := hv.of_appKey
    exact ⟨a, ha, hid⟩
  · obtain ⟨r, hr⟩ := Option.isSome_iff_exists.mp ((head?_selApp tb id token).mpr hh)
    rw [hr] at ha
    exact ⟨⟨id, r.1, r.2⟩, ha, rfl⟩

/-- In a sane state a permission of the tables is granted. -/
theorem validateRelation_sane (tg ta : Int) (appID ifaceID : Int) :
    Sane tb (validateRelation srv tb tg ta dc appID ifaceID).2 ∧
      (Related tb (appID, ifaceID) →
        (validateRelation srv tb tg ta dc appID ifaceID).1 = .ok ()) := by
  obtain ⟨hsane, hans⟩ := h.lookupVia tg ta (relationKey appID ifaceID) (fun _ => some ())
    (fun dc => onRow (fun id => ((), Val.relation id))
      (queryDB srv dc (dc.stmt .selRelation) (selRelation tb appID ifaceID)))
    ((selRelation tb appID ifaceID).head?.map fun id => ((), Val.relation id))
    (fun dc hl => ⟨_, _, by rw [queryDB_live srv hs dc hl, onRow_orErr]⟩) (by
      intro b v hf
      obtain ⟨r, -, hr⟩ := Option.map_eq_some_iff.mp hf
      obtain ⟨-, rfl⟩ := Prod.mk.inj hr
      exact ⟨appID, ifaceID, rfl⟩)
  refine ⟨hsane, fun hr => ?_⟩
  rcases hans with ⟨v, -, ha⟩ | ⟨e, ha⟩
  · exact ha
  · obtain ⟨r, hr⟩ := Option.isSome_iff_exists.mp ((head?_selRelation tb (appID, ifaceID)).mpr hr)
    rw [hr] at ha
    exact ha

theorem getVariable_sane (tg ta : Int) (id : Int) :
    Sane tb (getVariable srv tb tg ta dc id).2 := by
  refine (h.lookupVia tg ta (varKey id) Val.vars? (variableMiss srv tb id) _
    (fun dc hl => ⟨_, dc.tick + 1, variableMiss_live srv hs tb id dc hl⟩) ?_).1
  intro b v hf
  obtain ⟨vs, -, hv⟩ := Option.map_eq_some_iff.mp hf
  obtain ⟨-, rfl⟩ := Prod.mk.inj hv
  exact ⟨id, rfl⟩

/-- `getApp` keeps a sane state, and accepts a granted token. -/
theorem getApp_sane (C : Crypto) (tg ta : Int) (token : String) :
    Sane tb (getApp C srv tb tg ta dc token).2 ∧
      ∀ id, tokenID C token = some id → Holds tb id token →
        ∃ a : Application, (getApp C srv tb tg ta dc token).1 = .ok a ∧ a.id = id := by
  cases hid : tokenID C token with
  | none =>
    rw [(getApp_of_no_tokenID C srv tb tg ta dc token hid).2]
    exact ⟨h, fun id hid' => by cases hid'⟩
  | some id =>
    rw [getApp_of_tokenID C srv tb tg ta dc token id hid]
    obtain ⟨hsane, hfound⟩ := getApplication_sane hs h tg ta id token
    refine ⟨hsane, fun id' hid' hh => ?_⟩
    obtain rfl := Option.some.inj hid'
    exact hfound hh

end Lookups

/-! ## Requests in a sane state -/

namespace Gateway

section Requests

variable {srv : Server} (hs : srv.Reliable) {tb : Tables} {dc : DbCache} (h : Sane tb dc)
  (C : Crypto) (t : Times) (req : Request)
include hs h

/-- A request keeps a sane state, and is only accepted with the interface of the tables. -/
theorem getInterface_spec : Sane tb (getInterface C srv tb t dc req).2 ∧
    ∀ app iface, (getInterface C srv tb t dc req).1 = .ok (app, iface) →
      fetchInterface tb req.path.text = some iface := by
  unfold getInterface
  split
  · exact ⟨h, fun _ _ hok => by cases hok⟩
  · obtain ⟨hsane, -⟩ := getApp_sane hs h C t.app.1 t.app.2 (req.header "Token")
    generalize getApp C srv tb t.app.1 t.app.2 dc (req.header "Token") = x at hsane ⊢
    obtain ⟨r, dc1⟩ := x
    cases r with
    | err e => exact ⟨hsane, fun _ _ hok => by cases hok⟩
    | panic p => exact ⟨hsane, fun _ _ hok => by cases hok⟩
    | ok app =>
      obtain ⟨hsane', e, hans⟩ := Repeater.getInterface_sane hs hsane t.iface.1 t.iface.2 req.path
      simp only at hsane' hans ⊢
      generalize Repeater.getInterface srv tb t.iface.1 t.iface.2 dc1 req.path.text = x
        at hsane' hans ⊢
      obtain ⟨r, dc2⟩ := x
      cases hf : fetchInterface tb req.path.text with
      | none =>
        rw [hf] at hans
        obtain rfl : r = .err e := hans
        exact ⟨hsane', fun _ _ hok => by cases hok⟩
      | some i =>
        rw [hf] at hans
        obtain rfl : r = .ok i := hans
        simp only
        split
        · exact ⟨hsane', fun _ _ hok => by cases hok⟩
        · split
          · exact ⟨hsane', fun _ _ hok => by cases hok; rfl⟩
          · obtain ⟨hsane'', -⟩ :=
              validateRelation_sane hs hsane' t.relation.1 t.relation.2 app.id i.id
            simp only at hsane''
            generalize validateRelation srv tb t.relation.1 t.relation.2 dc2 app.id i.id = x
              at hsane'' ⊢
            obtain ⟨⟨⟨⟩⟩ | e | p, dc3⟩ := x
            · exact ⟨hsane'', fun _ _ hok => by cases hok; rfl⟩
            · cases e <;> exact ⟨hsane'', fun _ _ hok => by cases hok⟩
            · exact ⟨hsane'', fun _ _ hok => by cases hok⟩

/-- A request with a granted token, the method of the interface of the tables and its permission
    is accepted with that interface. -/
theorem ok_of_fetch {id : Int} {iface : Interface} (htoken : req.header "Token" ≠ "")
    (hid : tokenID C (req.header "Token") = some id) (hh : Holds tb id (req.header "Token"))
    (hf : fetchInterface tb req.path.text = some iface) (hm : req.method = methodString iface.method)
    (hp : iface.service.validate = true → Related tb (id, iface.id)) :
    ∃ app : Application, app.id = id ∧ (getInterface C srv tb t dc req).1 = .ok (app, iface) := by
  unfold getInterface
  rw [if_neg htoken]
  obtain ⟨hsane, hfound⟩ := getApp_sane hs h C t.app.1 t.app.2 (req.header "Token")
  obtain ⟨app, happ, hid'⟩ := hfound id hid hh
  generalize getApp C srv tb t.app.1 t.app.2 dc (req.header "Token") = x at hsane happ ⊢
  obtain ⟨r, dc1⟩ := x
  obtain rfl : r = .ok app := happ
  obtain ⟨hsane', e, hans⟩ := Repeater.getInterface_sane hs hsane t.iface.1 t.iface.2 req.path
  simp only at hsane' hans ⊢
  generalize Repeater.getInterface srv tb t.iface.1 t.iface.2 dc1 req.path.text = x at hsane' hans ⊢
  obtain ⟨r, dc2⟩ := x
  rw [hf] at hans
  obtain rfl : r = .ok iface := hans
  have hmethod : ¬ (iface.method ≠ restful ∧ req.method ≠ methodString iface.method) :=
    fun hne => hne.2 hm
  refine ⟨app, hid', ?_⟩
  simp only [if_neg hmethod]
  cases hv : iface.service.validate with
  | false => rfl
  | true =>
    obtain ⟨-, hgrant⟩ := validateRelation_sane hs hsane' t.relation.1 t.relation.2 app.id iface.id
    have hg := hgrant (hid' ▸ hp hv)
    simp only at hg
    generalize validateRelation srv tb t.relation.1 t.relation.2 dc2 app.id iface.id = x at hg ⊢
    obtain ⟨r, dc3⟩ := x
    obtain rfl : r = .ok () := hg
    rfl

end Requests

/-! ## Histories -/

/-- What happens to the gateway's cache: entries leave it, a request comes, or `Validate` asks for
    the variables of an interface. -/
inductive Event where
  | evict (gone : String → Bool)
  | request (t : Times) (req : Request)
  | vars (tg ta : Int) (id : Int)

def step (C : Crypto) (srv : Server) (tb : Tables) (dc : DbCache) : Event → DbCache
  | .evict gone => forget gone dc
  | .request t req => (getInterface C srv tb t dc req).2
  | .vars tg ta id => (getVariable srv tb tg ta dc id).2

/-- The gateway after the events of a history, oldest first. -/
def run (C : Crypto) (srv : Server) (tb : Tables) (dc : DbCache) (events : List Event) : DbCache :=
  events.foldl (step C srv tb) dc

theorem sane_step (C : Crypto) {srv : Server} (hs : srv.Reliable) {tb : Tables} {dc : DbCache}
    (h : Sane tb dc) (e : Event) : Sane tb (step C srv tb dc e) := by
  cases e with
  | evict gone => exact h.of_shrinks dc.tick (shrinks_forget gone dc)
  | request t req => exact (getInterface_spec hs h C t req).1
  | vars tg ta id => exact getVariable_sane hs h tg ta id

/-- Every history leaves a sane state. -/
theorem sane_run (C : Crypto) {srv : Server} (hs : srv.Reliable) (tb : Tables) (events : List Event) :
    ∀ dc, Sane tb dc → Sane tb (run C srv tb dc events) := by
  induction events with
  | nil => intro dc h; exact h
  | cons e events ih =>
    intro dc h
    exact ih _ (sane_step C hs h e)

theorem sane_initDC (srv : Server) (hs : srv.Reliable) (tb : Tables) (timeout : Int) :
    Sane tb (initDC srv timeout) := by
  obtain ⟨hlive, hcache⟩ := initDC_spec srv hs timeout
  refine ⟨hlive, fun k v hv => ?_⟩
  rw [hcache] at hv
  cases hv

/-! ## Where a FaaS request goes -/

/-- After 1970 the pick is one of the instances. -/
theorem pick_ok {apps : List MicroAPP} (hne : apps ≠ []) {now : Int} (hnow : 0 ≤ now) :
    ∃ app ∈ apps, pick apps now = .ok app := by
  have hpos : 0 < apps.length := List.length_pos_iff.mpr hne
  have hmod : now.tmod apps.length = now % apps.length := Int.tmod_eq_emod_of_nonneg hnow
  have hlo : 0 ≤ now % (apps.length : Int) := Int.emod_nonneg _ (by omega)
  have hhi : now % (apps.length : Int) < apps.length := Int.emod_lt_of_pos _ (by omega)
  have hlt : (now % (apps.length : Int)).toNat < apps.length := by omega
  refine ⟨apps[(now % (apps.length : Int)).toNat], List.getElem_mem hlt, ?_⟩
  have hempty : apps.isEmpty = false := List.isEmpty_eq_false_iff.mpr hne
  have hnlt : ¬ now % (apps.length : Int) < 0 := by omega
  simp only [pick, hempty, Bool.false_eq_true, if_false, hmod, hnlt,
    List.getElem?_eq_getElem hlt]

/-- The address of an instance, as it stands in a URL. -/
def addr (app : MicroAPP) : String := app.host ++ ":" ++ toString app.port

/-- An instance as `newKeepalive` announces it: at an IPv4 address and a port of TCP. -/
def Announced (app : MicroAPP) : Prop := IsAddr app.host ∧ 0 ≤ app.port ∧ app.port < 65536

theorem buildRequest_faas (N : NetUrl) (gitTime : String) {apps : Apps} {l : List MicroAPP}
    {now : Int} (hnow : 0 ≤ now) (id : String) (iface : Interface) (req : Request)
    (hver : iface.service.version = 1) (hpath : PlainPath iface.path)
    (hl : apps iface.backend = some l) (hne : l ≠ []) (hann : ∀ app ∈ l, Announced app) :
    ∃ app ∈ l, ∃ out, buildRequest N gitTime apps now id iface req = .ok out ∧
      out.url.host = addr app ∧ out.url.path = iface.path ∧ out.host = addr app := by
  obtain ⟨app, hm, hpick⟩ := pick_ok hne hnow
  obtain ⟨hhost, hp0, hp1⟩ := hann app hm
  obtain ⟨port, hport⟩ := Int.eq_ofNat_of_zero_le hp0
  have hstr : toString app.port = port.repr := by rw [hport]; rfl
  have hparse := N.parse_http app.host port iface.path (N.encodeQuery req.rawQuery) hhost (by omega)
    hpath (N.encodeQuery_plain req.rawQuery)
  refine ⟨app, hm, ?_⟩
  simp only [buildRequest, hver, if_true, faasBackend, getMicroAPPs, hl, hpick, Res.ok_bind,
    Res.pure_eq, hstr, hparse]
  exact ⟨_, rfl, by rw [addr, hstr], rfl, by rw [addr, hstr]⟩

end Gateway

end Doodle.Repeater
