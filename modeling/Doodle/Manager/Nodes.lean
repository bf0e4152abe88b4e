/-
  `nodes` GET of `manager/node.go`: the instances of a service, listed from etcd.

  The key to list is `/api/` and the service's source without `http://`, and `Client.List` of
  `util/etcd/etcd.go` takes every key that begins with it. `apiKey` writes `/api/`, the project,
  the host and the port with slashes between them, and the listing does not ask for the slash after
  the project. A value is kept as it is read back. The first six characters of a source are taken
  to be one byte each.

  * `isPrefix_key_iff`: the keys that begin so are those of projects whose name begins with the
    name, and those of a shorter name that the host and the port continue to it.
  * `listsOwn_iff`: so a service's own instances are listed exactly when no other project has such
    a key.
-/
import Doodle.Distributor.ProjectName
import Doodle.Manager.ServicePost
import Doodle.Service.Keepalive

namespace Doodle.Manager.Nodes

open Doodle.Lib Doodle.Util Doodle.Go Doodle.Service
open Distributor (nodesKey)
open ServicePost (ServiceRow serviceSchema)

/-! ## The handler -/

/-- `vars` of `GET`. -/
structure Vars where
  serviceID : Int := 0

def Vars.fields : List (Util.Field Vars) :=
  [⟨"serviceID", "Required", .int (·.serviceID) fun n v => { v with serviceID := n }⟩]

/-- The rule `Required`, which 0 does not meet. -/
def Vars.valid (v : Vars) : Option String :=
  if v.serviceID = 0 then some "ServiceID Can not be empty" else none

/-- `ParseURLVars`. `FormValue` drops an error of the form. -/
def parseURLVars {S : Type} (fields : List (Util.Field S)) (valid : S → Option String)
    (q : Request) (s : S) : Except String S :=
  match decodeFields q fields s with
  | (some e, _) => .error e
  | (none, s) =>
    match valid s with
    | some e => .error e
    | none => .ok s

/-- What is left open of a request's surroundings: the errors of the database and of etcd, and the
    order in which the loop visits the map. -/
structure Server where
  /-- `mdb.GetConnection` -/
  connect : Option String
  /-- an error of the query for the service -/
  query : Option String
  /-- `etcd.New` -/
  dial : Option String
  /-- an error of `List` -/
  get : Option String
  range : List (String × MicroAPP) → List (String × MicroAPP)
  range_perm : ∀ km, (range km).Perm km

/-- `util.SendResponse` with status 500 for an error. -/
def refuse : Option String → Res Resp Unit
  | some e => .err (.status 500 e)
  | none => .ok ()

/-- `Client.List` -/
def list (kvs : List (String × MicroAPP)) (key : String) : List (String × MicroAPP) :=
  kvs.filter fun kv => key.toList.isPrefixOf kv.1.toList

def etcdAPIPrefix : String := "/api"

/-- `GET`; `ok` is what `SendData` is given, where no rows at all are `null`. -/
def nodesGET [Collating] (S : Server) (service : Table serviceSchema)
    (kvs : List (String × MicroAPP)) (q : Request) : Res Resp (List MicroAPP) :=
  match parseURLVars Vars.fields Vars.valid q {} with
  | .error e => .err (.printf e)
  | .ok vars => do
    refuse S.connect
    refuse S.query
    match service.rows.find? fun p => p.id = vars.serviceID with
    | none => .err (.status 500 "not found")
    | some p =>
      if p.source.utf8ByteSize < 6 then .panic "slice bounds out of range"
      else do
        let key := etcdAPIPrefix ++ nodesKey p.source
        refuse S.dial
        refuse S.get
        pure ((S.range (list kvs key)).map Prod.snd)

/-! ## The property -/

/-- An instance: what its key is made of, and what it announces. -/
structure Node where
  project : String
  host : String
  port : Nat
  app : MicroAPP

def Node.key (n : Node) : String := apiKey n.project n.host n.port

/-- The instances with a live key. -/
structure Etcd where
  nodes : List Node
  nodup_key : (nodes.map Node.key).Nodup

def Etcd.kvs (e : Etcd) : List (String × MicroAPP) := e.nodes.map fun n => (n.key, n.app)

/-- The values of the keys of a project. -/
def Etcd.appsOf (e : Etcd) (project : String) : List MicroAPP :=
  (e.nodes.filter fun n => n.project = project).map Node.app

/-- A request for a service of the table whose source is `http://` and its project. -/
structure Ask [Collating] (service : Table serviceSchema) where
  row : ServiceRow
  mem : row ∈ service.rows
  id_ne_zero : row.id ≠ 0
  project : String
  source_eq : row.source = "http://" ++ project
  q : Request
  asks : q.int? "serviceID" = some row.id

/-- No error on the way. -/
structure Server.Ready (S : Server) : Prop where
  connect : S.connect = none
  query : S.query = none
  dial : S.dial = none
  get : S.get = none

/-- The rows are the values of the project's keys, one for each, whatever the surroundings. -/
structure ListsOwn [Collating] (service : Table serviceSchema) (e : Etcd) (a : Ask service) :
    Prop where
  answers : ∀ S : Server, S.Ready → ∃ rows, nodesGET S service e.kvs a.q = .ok rows
  own : ∀ S rows, nodesGET S service e.kvs a.q = .ok rows → rows.Perm (e.appsOf a.project)

/-- The name of the instance's project begins with `project`, or it goes on with the instance's
    host and port to a text that does. -/
def Catches (project : String) (n : Node) : Prop :=
  project.toList <+: n.project.toList ∨ ∃ rest : String, project = n.project ++ "/" ++ rest ∧
    rest.toList <+: (n.host ++ "/" ++ n.port.repr).toList

/-! ## Keys that begin with the project's -/

theorem isPrefix_append_cons_iff {α : Type} {c : α} {p a b : List α} :
    p <+: a ++ c :: b ↔ p <+: a ∨ ∃ r, p = a ++ c :: r ∧ r <+: b := by
  constructor
  · intro h
    rcases List.prefix_or_prefix_of_prefix h (List.prefix_append a (c :: b)) with hp | ⟨t, rfl⟩
    · exact .inl hp
    · cases t with
      | nil => exact .inl (by rw [List.append_nil])
      | cons d r =>
        obtain ⟨rfl, hr⟩ := List.cons_prefix_cons.mp ((List.prefix_append_right_inj a).mp h)
        exact .inr ⟨r, rfl, hr⟩
  · rintro (h | ⟨r, rfl, hr⟩)
    · exact h.trans (List.prefix_append a _)
    · exact (List.prefix_append_right_inj a).mpr (List.cons_prefix_cons.mpr ⟨rfl, hr⟩)

theorem nodesKey_http (project : String) : nodesKey ("http://" ++ project) = "/" ++ project := by
  have hhttp : "http://" = "http:/" ++ "/" := by decide
  have hlen : "http:/".length = 6 := by decide
  have hslice := sliceFrom_append "http:/" ("/" ++ project)
  rwa [hlen, ← String.append_assoc, ← hhttp] at hslice

theorem toList_nodesKey (project : String) :
    (etcdAPIPrefix ++ nodesKey ("http://" ++ project)).toList =
      "/api/".toList ++ project.toList := by
  have hapi : etcdAPIPrefix ++ "/" = "/api/" := by decide
  rw [nodesKey_http, ← String.append_assoc, String.toList_append, hapi]

theorem toList_key (n : Node) : n.key.toList =
    "/api/".toList ++ (n.project.toList ++ '/' :: (n.host ++ "/" ++ n.port.repr).toList) := by
  have hslash : "/".toList = ['/'] := by decide
  simp only [Node.key, apiKey, String.toList_append, List.append_assoc, hslash,
    List.cons_append, List.nil_append]

/-- Which keys the listing takes. -/
theorem isPrefix_key_iff (project : String) (n : Node) :
    (etcdAPIPrefix ++ nodesKey ("http://" ++ project)).toList <+: n.key.toList ↔
      Catches project n := by
  rw [toList_nodesKey, toList_key, List.prefix_append_right_inj, isPrefix_append_cons_iff]
  refine or_congr_right ⟨?_, ?_⟩
  · rintro ⟨r, hr, hrest⟩
    refine ⟨String.ofList r, ?_, by rwa [String.toList_ofList]⟩
    rw [← String.toList_inj, hr]
    simp
  · rintro ⟨rest, rfl, hrest⟩
    refine ⟨rest.toList, ?_, hrest⟩
    simp

theorem catches_own (n : Node) : Catches n.project n := .inl (List.prefix_refl _)

/-! ## The rows -/

section Rows

variable (e : Etcd)

/-- The instances whose key is listed. -/
def Etcd.caught (e : Etcd) (project : String) : List Node :=
  e.nodes.filter fun n =>
    (etcdAPIPrefix ++ nodesKey ("http://" ++ project)).toList.isPrefixOf n.key.toList

theorem mem_caught {project : String} {n : Node} :
    n ∈ e.caught project ↔ n ∈ e.nodes ∧ Catches project n := by
  rw [Etcd.caught, List.mem_filter, List.isPrefixOf_iff_prefix, isPrefix_key_iff]

theorem list_kvs (project : String) :
    list e.kvs (etcdAPIPrefix ++ nodesKey ("http://" ++ project)) =
      (e.caught project).map fun n => (n.key, n.app) := by
  rw [list, Etcd.kvs, List.filter_map, Etcd.caught, Function.comp_def]

/-- What the loop collects. -/
def Server.rows (S : Server) (e : Etcd) (project : String) : List MicroAPP :=
  (S.range ((e.caught project).map fun n => (n.key, n.app))).map Prod.snd

theorem refuse_bind_eq_ok {α : Type} {o : Option String} {x : Res Resp α} {y : α} :
    (refuse o >>= fun _ => x) = .ok y ↔ o = none ∧ x = .ok y := by
  cases o <;> simp [refuse]

theorem rows_perm (S : Server) (project : String) :
    (S.rows e project).Perm ((e.caught project).map Node.app) := by
  have h := (S.range_perm ((e.caught project).map fun n => (n.key, n.app))).map Prod.snd
  rwa [List.map_map] at h

/-- Of the listed instances, the project's own are those of the project. -/
theorem filter_caught (project : String) :
    ((e.caught project).filter fun n => n.project = project) =
      e.nodes.filter fun n => n.project = project := by
  rw [Etcd.caught, List.filter_filter]
  refine List.filter_congr fun n _ => ?_
  by_cases h : n.project = project
  · subst h
    have hown := List.isPrefixOf_iff_prefix.mpr ((isPrefix_key_iff n.project n).mpr (catches_own n))
    rw [hown, Bool.and_true]
  · simp only [h, decide_false, Bool.false_and]

variable [Collating] {service : Table serviceSchema} (a : Ask service)

theorem Ask.find?_eq : (service.rows.find? fun p => p.id = a.row.id) = some a.row := by
  cases hp : service.rows.find? fun p => p.id = a.row.id with
  | none => exact absurd (decide_eq_true rfl) (List.find?_eq_none.mp hp a.row a.mem)
  | some p =>
    have hid : p.id = a.row.id := by simpa using List.find?_some hp
    rw [service.eq_of_id (List.mem_of_find?_eq_some hp) a.mem hid]

theorem Ask.parseURLVars_eq :
    parseURLVars Vars.fields Vars.valid a.q {} = .ok ⟨a.row.id⟩ := by
  simp only [parseURLVars, Vars.fields, decodeFields, decodeField, a.asks, Vars.valid,
    if_neg a.id_ne_zero]

/-- The rows are sent exactly when there is no error on the way. -/
theorem nodesGET_eq_ok_iff (S : Server) (rows : List MicroAPP) :
    nodesGET S service e.kvs a.q = .ok rows ↔ S.Ready ∧ S.rows e a.project = rows := by
  have hlong : ¬ a.row.source.utf8ByteSize < 6 := by
    have h7 : "http://".utf8ByteSize = 7 := by decide
    rw [a.source_eq, String.utf8ByteSize_append]
    omega
  simp only [nodesGET, a.parseURLVars_eq, a.find?_eq, if_neg hlong, refuse_bind_eq_ok]
  rw [a.source_eq, list_kvs]
  constructor
  · rintro ⟨hconnect, hquery, hdial, hget, hrows⟩
    exact ⟨⟨hconnect, hquery, hdial, hget⟩, Res.ok.inj hrows⟩
  · rintro ⟨h, rfl⟩
    exact ⟨h.connect, h.query, h.dial, h.get, rfl⟩

/-- The surroundings in which nothing fails and the map is visited as it is. -/
def Server.plain : Server := ⟨none, none, none, none, id, fun _ => .refl _⟩

theorem not_catches_of_listsOwn (h : ListsOwn service e a) :
    ∀ n ∈ e.nodes, n.project ≠ a.project → ¬ Catches a.project n := by
  intro n hn hne hcatch
  have hsent := (nodesGET_eq_ok_iff e a .plain _).mpr ⟨⟨rfl, rfl, rfl, rfl⟩, rfl⟩
  have hrows := (rows_perm e .plain a.project).symm.trans (h.own .plain _ hsent)
  have hlen := hrows.length_eq
  rw [Etcd.appsOf, List.length_map, List.length_map, ← filter_caught] at hlen
  have hall := List.length_filter_eq_length_iff.mp hlen.symm
  exact hne (of_decide_eq_true (hall n ((mem_caught e).mpr ⟨hn, hcatch⟩)))

theorem caught_eq (h : ∀ n ∈ e.nodes, n.project ≠ a.project → ¬ Catches a.project n) :
    e.caught a.project = e.nodes.filter fun n => n.project = a.project := by
  rw [← filter_caught, eq_comm, List.filter_eq_self]
  intro n hn
  obtain ⟨hmem, hcatch⟩ := (mem_caught e).mp hn
  exact decide_eq_true (by_contra fun hne => h n hmem hne hcatch)

end Rows

/-- The node list of a service has its own instances only, and all of them, exactly when no
    instance of another project has a name that begins with the service's project, or a name that
    its host and port continue to such a text. -/
theorem listsOwn_iff [Collating] (service : Table serviceSchema) (e : Etcd) (a : Ask service) :
    ListsOwn service e a ↔ ∀ n ∈ e.nodes, n.project ≠ a.project → ¬ Catches a.project n := by
  refine ⟨not_catches_of_listsOwn e a, fun h => ⟨fun S hS => ?_, fun S rows hrows => ?_⟩⟩
  · exact ⟨_, (nodesGET_eq_ok_iff e a S _).mpr ⟨hS, rfl⟩⟩
  · obtain ⟨-, rfl⟩ := (nodesGET_eq_ok_iff e a S rows).mp hrows
    rw [Etcd.appsOf, ← caught_eq e a h]
    exact rows_perm e S a.project

/-! ## Two projects -/

section Examples

def faasRow : ServiceRow where
  id := 1
  roleID := 1
  resourceID := 1
  clusterID := 1
  name := "faas"
  user := "dev"
  validate := false
  email := "dev@x"
  path := "faas"
  source := "http://git.jd.com/dbs/faas"
  version := 1
  comment := "c"
  ctime := "t"
  mtime := "t"

attribute [local instance] asciiCi

def faasTable : Table serviceSchema where
  rows := [faasRow]
  next := 2
  id_lt := by decide
  sorted := by decide
  nodup_key := by decide

def askFaas : Ask faasTable where
  row := faasRow
  mem := List.mem_singleton.mpr rfl
  id_ne_zero := by decide
  project := "git.jd.com/dbs/faas"
  source_eq := rfl
  q := ⟨none, [("serviceID", "1")]⟩
  asks := by decide

def testNode : Node := ⟨"git.jd.com/dbs/faas_test_001", "10.0.0.2", 8080, .zero⟩

/-- One instance, of the project `git.jd.com/dbs/faas_test_001`. -/
def faasEtcd : Etcd := ⟨[testNode], List.nodup_singleton _⟩

/-- It is listed as one of `git.jd.com/dbs/faas`. -/
theorem other_project_listed : ¬ ListsOwn faasTable faasEtcd askFaas := by
  intro h
  refine not_catches_of_listsOwn faasEtcd askFaas h testNode (List.mem_singleton.mpr rfl)
    (by decide) (.inl ?_)
  decide

end Examples

end Doodle.Manager.Nodes
