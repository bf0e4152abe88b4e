/-
  Which methods of a FaaS service the gateway reaches.

  `Service.Register` (`service/service.go`) puts up to four methods on one URL, and the interface
  table is unique by service, path and method. `getInterface` asks for service and path, takes the
  first row, and leaves the method to be compared afterwards.

  `faas_reachable_iff`: every method of a FaaS service is reached, by every caller and in every
  history, exactly when no two of its interface rows have paths that the database takes for one.
-/
import Mathlib.Data.List.Nodup
import Doodle.Repeater.Gateway

namespace Doodle.Repeater

open Doodle.Go Doodle.Util Doodle.Service

/-! ## Registered services -/

/-- `strings.TrimPrefix(s, p)` -/
def trimFront (s p : String) : String :=
  if p.toList.isPrefixOf s.toList then sliceFrom s p.length else s

/-- The URL `Register` makes of a type's package path and name; `project` is `debug.Project`. -/
def registerUrl (project pkg name : String) : String :=
  let pkg := trimFront pkg project
  (if pkg = "main" then "/main" else pkg) ++ "/" ++ name ++ "/"

/-- A URL that `Register` built, of the characters Go allows in package paths and names. -/
structure Registered (path : String) : Prop where
  built : ∃ project pkg name, path = registerUrl project pkg name
  plain : PlainPath path

/-- A FaaS service in tables with their unique keys, and its registered interfaces. -/
structure Faas where
  weight : String → String
  service : List ServiceRow
  interface : List InterfaceRow
  svc : ServiceRow
  svc_mem : svc ∈ service
  svc_only : ∀ r ∈ service, weight r.path = weight svc.path → r = svc
  version : svc.version = 1
  no_slash : '/' ∉ svc.path.toList
  unique : interface.Pairwise fun r r' =>
    ¬ (r.serviceID = r'.serviceID ∧ weight r.path = weight r'.path ∧ r.method = r'.method)
  registered : ∀ r ∈ interface, r.serviceID = svc.id → Registered r.path

namespace Faas

variable (F : Faas)

/-- The interface rows of the service. -/
def rows : List InterfaceRow := F.interface.filter fun r => r.serviceID == F.svc.id

/-- The gateway's tables, with any applications, permissions and variables. -/
def tables (apps : List ApplicationRow) (rels : List RelationRow) (vars : List VariableRow) : Tables :=
  ⟨F.weight, F.service, F.interface, apps, rels, vars⟩

/-- A row of the service as the gateway hands it on, under the path it was asked for. -/
def ofRow (path : String) (r : InterfaceRow) : Interface :=
  ⟨r.id, r.method, r.backend, r.email, path, ⟨F.svc.id, F.svc.validate, F.svc.version⟩⟩

/-- The URL path of the row's requests. -/
def url (r : InterfaceRow) : String := "/" ++ F.svc.path ++ r.path

/-- A request for the row with a valid token and the permission. -/
structure Caller (C : Crypto) (tb : Tables) (r : InterfaceRow) where
  req : Request
  id : Int
  method : req.method = methodString r.method
  path : req.path.text = F.url r
  token : req.header "Token" ≠ ""
  tokenID : tokenID C (req.header "Token") = some id
  holds : Holds tb id (req.header "Token")
  permitted : F.svc.validate = true → Related tb (id, r.id)

/-- Every caller of the row is accepted with exactly this row, after every history, and forwarded
    to the row's path on an instance of its backend. -/
def Reached (C : Crypto) (N : NetUrl) (r : InterfaceRow) : Prop :=
  ∀ apps rels vars (c : F.Caller C (F.tables apps rels vars) r) (srv : Server) (timeout : Int)
    (history : List Gateway.Event) (t : Times), srv.Reliable →
    (∃ app : Application, app.id = c.id ∧
      (Gateway.getInterface C srv (F.tables apps rels vars) t
        (Gateway.run C srv (F.tables apps rels vars) (initDC srv timeout) history) c.req).1 =
          .ok (app, F.ofRow r.path r)) ∧
    ∀ gitTime (instances : Apps) (now : Int) session l, 0 ≤ now → instances r.backend = some l →
      l ≠ [] → (∀ app ∈ l, Gateway.Announced app) →
      ∃ app ∈ l, ∃ out,
        Gateway.buildRequest N gitTime instances now session (F.ofRow r.path r) c.req = .ok out ∧
          out.url.host = Gateway.addr app ∧ out.url.path = r.path

theorem mem_rows {r : InterfaceRow} : r ∈ F.rows ↔ r ∈ F.interface ∧ r.serviceID = F.svc.id := by
  simp [rows]

/-! ## The row the gateway finds -/

variable (apps : List ApplicationRow) (rels : List RelationRow) (vars : List VariableRow)

theorem head?_selService : (selService (F.tables apps rels vars) F.svc.path).head? =
    some ⟨F.svc.id, F.svc.validate, F.svc.version⟩ := by
  have hsel : (selService (F.tables apps rels vars) F.svc.path).head? =
      (F.service.find? fun r => F.weight r.path == F.weight F.svc.path).map fun r =>
        ⟨r.id, r.validate, r.version⟩ := by
    rw [selService, List.head?_map, List.head?_filter]
    rfl
  rw [hsel]
  cases hf : F.service.find? (fun r => F.weight r.path == F.weight F.svc.path) with
  | none =>
    have := List.find?_eq_none.mp hf F.svc F.svc_mem
    simp at this
  | some r =>
    have hp : F.weight r.path = F.weight F.svc.path := by simpa using List.find?_some hf
    rw [F.svc_only r (List.mem_of_find?_eq_some hf) hp]
    rfl

/-- The first row of the service with this path. -/
def first (path : String) : Option InterfaceRow :=
  F.rows.find? fun r => F.weight r.path == F.weight path

theorem first_eq_find? (path : String) : F.first path =
    F.interface.find? fun r => r.serviceID == F.svc.id && F.weight r.path == F.weight path := by
  unfold first rows
  rw [List.find?_filter]
  congr 1
  funext r
  rw [Bool.eq_iff_iff]
  simp

/-- How `getInterface` cuts the URL of a row: the service's path, then the whole path of the
    row. -/
theorem cut_url {r : InterfaceRow} (hr : r ∈ F.rows) : ∃ p2 ps,
    split (F.url r) '/' = "" :: F.svc.path :: p2 :: ps ∧
      ifacePath F.svc.version (F.url r) F.svc.path p2 = r.path := by
  obtain ⟨hm, hid⟩ := F.mem_rows.mp hr
  have hplain := (F.registered r hm hid).plain
  obtain ⟨rest, hrest⟩ : ∃ rest, r.path = "/" ++ rest := by
    have hslash := hplain.slash
    refine ⟨String.ofList r.path.toList.tail, String.toList_inj.mp ?_⟩
    cases hl : r.path.toList with
    | nil =>
      rw [hl] at hslash
      cases hslash
    | cons c cs =>
      rw [hl] at hslash
      obtain rfl := Option.some.inj hslash
      simp
  have hsplit : split (F.url r) '/' = "" :: F.svc.path :: split rest '/' := by
    have hsep : ("/" : String) = String.singleton '/' := by decide
    have hurl : F.url r =
        "" ++ String.singleton '/' ++ (F.svc.path ++ String.singleton '/' ++ rest) := by
      rw [url, hrest, hsep, ← String.toList_inj]
      simp
    rw [hurl, split_append, split_append, split_of_not_mem F.no_slash]
    rfl
  obtain ⟨p2, ps, hps⟩ : ∃ p2 ps, split rest '/' = p2 :: ps :=
    List.exists_cons_of_ne_nil (by simp [split, List.splitOn_ne_nil])
  refine ⟨p2, ps, hps ▸ hsplit, ?_⟩
  have hdrop : sliceFrom (F.url r) (F.svc.path.length + 1) = r.path := by
    have hlen : F.svc.path.length + 1 = ("/" ++ F.svc.path).length := by
      rw [String.length_append, Nat.add_comm]
      rfl
    rw [hlen, url, sliceFrom_append]
  have hq : '?' ∉ r.path.toList := fun h => (hplain.plain _ h).1 rfl
  simp only [ifacePath, F.version, if_true, hdrop, lastIndex_of_not_mem hq]

/-- Requests for a row's URL find the first row of its path. -/
theorem fetch_url {r : InterfaceRow} (hr : r ∈ F.rows) :
    fetchInterface (F.tables apps rels vars) (F.url r) =
      (F.first r.path).map (F.ofRow r.path) := by
  obtain ⟨p2, ps, hsplit, hpath⟩ := F.cut_url hr
  have hsel : (selIface (F.tables apps rels vars) F.svc.id r.path).head? =
      (F.first r.path).map fun a => (a.id, a.method, a.backend, a.email) := by
    rw [first_eq_find?, selIface, List.head?_map, List.head?_filter]
    rfl
  unfold fetchInterface
  rw [hsplit]
  simp only [head?_selService, Option.bind_some, hpath, hsel, Option.map_map]
  rfl

/-! ## Callers -/

/-- Some id has a token that is not empty. -/
theorem exists_token (C : Crypto) : ∃ token id, token ≠ "" ∧ Util.tokenID C token = some id := by
  by_cases h : tokenOf C [0x02] = ""
  · refine ⟨tokenOf C [0x04], 2, fun h' => ?_, tokenID_tokenOf C _ (by decide) (by decide)⟩
    have hbytes := aesDecrypt_tokenOf C [0x02]
    rw [h, ← h', aesDecrypt_tokenOf] at hbytes
    exact absurd hbytes (by decide)
  · exact ⟨tokenOf C [0x02], 1, h, tokenID_tokenOf C _ (by decide) (by decide)⟩

/-- Every row has a caller, in tables with one application and its permission. -/
theorem exists_caller (C : Crypto) {r : InterfaceRow} :
    ∃ apps rels, Nonempty (F.Caller C (F.tables apps rels []) r) := by
  obtain ⟨token, id, hne, hid⟩ := exists_token C
  refine ⟨[⟨id, "", "", token⟩], [⟨0, id, r.id⟩], ⟨?_⟩⟩
  exact
    { req := ⟨methodString r.method, ⟨F.url r, Or.inr (Or.inr (by simp [url]))⟩, "", fun _ => token⟩
      id := id
      method := rfl
      path := rfl
      token := hne
      tokenID := hid
      holds := ⟨_, List.mem_singleton.mpr rfl, rfl, rfl⟩
      permitted := fun _ => ⟨_, List.mem_singleton.mpr rfl, rfl, rfl⟩ }

/-- A row that is reached is the first of its path. -/
theorem first_of_reached {C : Crypto} {N : NetUrl} {r : InterfaceRow} (hr : r ∈ F.rows)
    (h : F.Reached C N r) : (F.first r.path).map (F.ofRow r.path) = some (F.ofRow r.path r) := by
  obtain ⟨apps, rels, ⟨c⟩⟩ := F.exists_caller C (r := r)
  have hs : Server.Reliable fun _ => true := fun _ => rfl
  obtain ⟨⟨app, -, hok⟩, -⟩ := h apps rels [] c (fun _ => true) 0 [] ⟨(0, 0), (0, 0), (0, 0)⟩ hs
  have hsane := Gateway.sane_initDC (fun _ => true) hs (F.tables apps rels []) 0
  have hf := (Gateway.getInterface_spec hs hsane C _ c.req).2 _ _ hok
  rw [c.path, F.fetch_url apps rels [] hr] at hf
  exact hf

/-- The first row of its path is reached. -/
theorem reached_of_first (C : Crypto) (N : NetUrl) {r : InterfaceRow} (hr : r ∈ F.rows)
    (h : F.first r.path = some r) : F.Reached C N r := by
  intro apps rels vars c srv timeout history t hs
  obtain ⟨hm, hid⟩ := F.mem_rows.mp hr
  constructor
  · have hsane := Gateway.sane_run C hs (F.tables apps rels vars) history _
      (Gateway.sane_initDC srv hs (F.tables apps rels vars) timeout)
    have hf : fetchInterface (F.tables apps rels vars) c.req.path.text =
        some (F.ofRow r.path r) := by
      rw [c.path, F.fetch_url apps rels vars hr, h, Option.map_some]
    exact Gateway.ok_of_fetch hs hsane C t c.req c.token c.tokenID c.holds hf c.method c.permitted
  · intro gitTime instances now session l hnow hl hne hann
    obtain ⟨app, happ, out, hout, hhost, hpath, -⟩ := Gateway.buildRequest_faas N gitTime hnow session
      (F.ofRow r.path r) c.req F.version (F.registered r hm hid).plain hl hne hann
    exact ⟨app, happ, out, hout, hhost, hpath⟩

/-- Two rows of one path that are both reached have one method. -/
theorem distinct_of_reached {C : Crypto} {N : NetUrl} (h : ∀ r ∈ F.rows, F.Reached C N r) :
    F.rows.Pairwise fun r r' => F.weight r.path ≠ F.weight r'.path := by
  refine (F.unique.filter _).imp_of_mem fun {r r'} hr hr' hne hpath => ?_
  have hfirst : F.first r.path = F.first r'.path := by
    unfold first
    rw [hpath]
  obtain ⟨a, ha, har⟩ := Option.map_eq_some_iff.mp (F.first_of_reached hr (h r hr))
  obtain ⟨a', ha', har'⟩ := Option.map_eq_some_iff.mp (F.first_of_reached hr' (h r' hr'))
  obtain rfl : a = a' := Option.some.inj (ha.symm.trans (hfirst.trans ha'))
  have hmethod : r.method = r'.method :=
    (congrArg Interface.method har).symm.trans (congrArg Interface.method har')
  exact hne ⟨(F.mem_rows.mp hr).2.trans (F.mem_rows.mp hr').2.symm, hpath, hmethod⟩

theorem first_of_distinct (h : F.rows.Pairwise fun r r' => F.weight r.path ≠ F.weight r'.path)
    {r : InterfaceRow} (hr : r ∈ F.rows) : F.first r.path = some r := by
  cases hf : F.first r.path with
  | none =>
    have := List.find?_eq_none.mp hf r hr
    simp at this
  | some a =>
    have hnodup : (F.rows.map fun r => F.weight r.path).Nodup := List.pairwise_map.mpr h
    rw [List.inj_on_of_nodup_map hnodup (List.mem_of_find?_eq_some hf) hr
      (by simpa using List.find?_some hf)]

end Faas

/-- Every method of a FaaS service is reached through the gateway exactly when no two of its
    interface rows have paths of one weight. -/
theorem faas_reachable_iff (C : Crypto) (N : NetUrl) (F : Faas) :
    (∀ r ∈ F.rows, F.Reached C N r) ↔
      F.rows.Pairwise fun r r' => F.weight r.path ≠ F.weight r'.path :=
  ⟨F.distinct_of_reached, fun h _ hr => F.reached_of_first C N hr (F.first_of_distinct h hr)⟩

theorem plainPath_user : PlainPath "/main/User/" where
  slash := by decide
  plain := by simp

/-- One type `User` of package `main` with the methods `Get` and `Post`, registered by one
    `Register` call, in a database with this collation. -/
def userFaas (weight : String → String) : Faas where
  weight := weight
  service := [⟨1, "faas", false, 1⟩]
  interface := [⟨1, 1, registerUrl "faas" "main" "User", 0, "faas", ""⟩,
    ⟨2, 1, registerUrl "faas" "main" "User", 1, "faas", ""⟩]
  svc := ⟨1, "faas", false, 1⟩
  svc_mem := List.mem_singleton.mpr rfl
  svc_only r hr _ := List.mem_singleton.mp hr
  version := rfl
  no_slash := by decide
  unique := by simp
  registered r hr _ := by
    have hpath : r.path = registerUrl "faas" "main" "User" := by
      rcases List.mem_pair.mp hr with rfl | rfl <;> rfl
    rw [hpath]
    exact ⟨⟨_, _, _, rfl⟩, plainPath_user⟩

/-- Its `Post` is not reached: `GET` and `POST` rows share the URL, and the gateway only ever finds
    the first. -/
theorem faas_post_unreachable : ¬ ∃ (C : Crypto) (N : NetUrl) (weight : String → String),
    ∀ r ∈ (userFaas weight).rows, (userFaas weight).Reached C N r := by
  rintro ⟨C, N, weight, h⟩
  exact (List.pairwise_pair.mp ((userFaas weight).distinct_of_reached h)) rfl

end Doodle.Repeater
