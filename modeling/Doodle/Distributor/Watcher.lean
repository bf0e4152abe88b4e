/-
  `watcher` of `distributor/watcher.go`: the table of nodes by service and host, and what the
  events of etcd make of it. `install` of `task.go` asks it for the process to stop.

  `onEvent` puts and deletes by name and host, so the table is what a store keyed by name and host
  has after the same changes (`get_process`): the port of the key is lost. `finds_iff` says when
  the instance found is a running one: none is running there, or the last change of that name and
  host announced one. `overlap_lost` is a redeploy in which the old key expires after the new one
  is there.

  `online` also reports the documents of the new node to the manager (`parseDocument`), which does
  not touch the table.
-/
import Doodle.Lib.EventLog
import Doodle.Service.Keepalive

namespace Doodle.Distributor

open Doodle.Go Doodle.Lib Doodle.Service

/-- `MicroAPP.Version`; the error of `ParseInt` is dropped. -/
def version (app : MicroAPP) : Int := atoi app.gitTime

/-- `service`. -/
structure Nodes where
  version : Int
  nodes : String → Option MicroAPP

/-- `watcher.services`. -/
abbrev Services := String → Option Nodes

def Services.empty : Services := fun _ => none

def Services.set (ws : Services) (name : String) (o : Nodes) : Services :=
  fun n => if n = name then some o else ws n

/-- `o.nodes[host] = app`. The map is shared with the copy in `services`, so the node is there even
    when `online` returns before it stores `o`. -/
def Nodes.put (o : Nodes) (host : String) (app : Option MicroAPP) : Nodes :=
  { o with nodes := fun h => if h = host then app else o.nodes h }

def online (ws : Services) (backend : String) (app : MicroAPP) : Services :=
  match ws backend with
  | some o =>
    let o' := o.put app.host (some app)
    if version app ≤ o.version then ws.set backend o'
    else ws.set backend { o' with version := version app }
  | none => ws.set backend ⟨version app, fun h => if h = app.host then some app else none⟩

def offline (ws : Services) (name host : String) : Services :=
  match ws name with
  | none => ws
  | some s => ws.set name (s.put host none)

def get (ws : Services) (name host : String) : MicroAPP :=
  match ws name with
  | none => MicroAPP.zero
  | some s =>
    match s.nodes host with
    | none => MicroAPP.zero
    | some a => a

/-- One round of the loop of `start`. -/
def onEvent (ws : Services) (e : Change String MicroAPP) : Services :=
  match cutKey e.key with
  | none => ws
  | some (name, host, _) =>
    match e.img with
    | none => offline ws name host
    | some app => online ws name app

/-- One round of the loop of `load`, for the entry of `key`. -/
def loadEntry (ws : Services) (key : String) (app : MicroAPP) : Services :=
  match cutKey key with
  | none => ws
  | some (name, _, _) => online ws name app

/-- The events of instances, from an empty table. -/
def process (log : List (Change Inst Build)) : Services :=
  log.foldl (fun ws e => onEvent ws (wire e)) Services.empty

/-! ## The table by name and host -/

/-- The node the table has for a host. -/
def node (ws : Services) (name host : String) : Option MicroAPP :=
  (ws name).bind fun s => s.nodes host

theorem get_eq_node (ws : Services) (name host : String) :
    get ws name host = (node ws name host).getD MicroAPP.zero := by
  unfold get node
  cases ws name with
  | none => rfl
  | some s =>
    simp only [Option.bind_some]
    cases s.nodes host <;> rfl

theorem node_set (ws : Services) (name : String) (o : Nodes) (n h : String) :
    node (ws.set name o) n h = if n = name then o.nodes h else node ws n h := by
  unfold node Services.set
  split <;> rfl

theorem node_online (ws : Services) (backend : String) (app : MicroAPP) (n h : String) :
    node (online ws backend app) n h =
      if backend = n ∧ app.host = h then some app else node ws n h := by
  unfold online
  cases ho : ws backend with
  | none =>
    simp only [node_set]
    by_cases hn : n = backend
    · by_cases hh : h = app.host
      · simp [hn, hh]
      · simp [hn, hh, Ne.symm hh, node, ho]
    · simp [hn, Ne.symm hn]
  | some o =>
    -- both branches store the same nodes
    have hput : ∀ v : Int, node (ws.set backend { o.put app.host (some app) with version := v })
        n h = if backend = n ∧ app.host = h then some app else node ws n h := by
      intro v
      rw [node_set]
      by_cases hn : n = backend
      · by_cases hh : h = app.host
        · simp [hn, hh, Nodes.put]
        · simp [hn, hh, Ne.symm hh, Nodes.put, node, ho]
      · simp [hn, Ne.symm hn]
    simp only
    split
    · exact hput o.version
    · exact hput (version app)

theorem node_offline (ws : Services) (name host n h : String) :
    node (offline ws name host) n h =
      if name = n ∧ host = h then none else node ws n h := by
  unfold offline
  cases ho : ws name with
  | none =>
    by_cases hc : name = n ∧ host = h
    · simp [← hc.1, node, ho]
    · rw [if_neg hc]
  | some s =>
    rw [node_set]
    by_cases hn : n = name
    · by_cases hh : h = host
      · simp [hn, hh, Nodes.put]
      · simp [hn, hh, Ne.symm hh, Nodes.put, node, ho]
    · simp [hn, Ne.symm hn]

/-- The change as the table sees it. -/
def atHost (e : Change Inst Build) : Change (String × String) MicroAPP :=
  ⟨(e.key.name, e.key.host), e.img.map e.key.announce⟩

theorem node_onEvent (ws : Services) (e : Change Inst Build) (n h : String) :
    node (onEvent ws (wire e)) n h =
      if (atHost e).key = (n, h) then (atHost e).img else node ws n h := by
  obtain ⟨i, _ | b⟩ := e
  · simp only [onEvent, wire, atHost, Inst.cutKey_key, Option.map_none, node_offline,
      Prod.mk.injEq]
  · simp only [onEvent, wire, atHost, Inst.cutKey_key, Option.map_some, node_online,
      Prod.mk.injEq]
    rfl

/-- The table is a store keyed by name and host. -/
theorem node_process (log : List (Change Inst Build)) (n h : String) :
    node (process log) n h = valueAfter (log.map atHost) (n, h) := by
  induction log using List.reverseRecOn with
  | nil => rfl
  | append_singleton l e ih =>
    rw [List.map_append, List.map_singleton, valueAfter_concat, ← ih, ← node_onEvent]
    unfold process
    rw [List.foldl_append, List.foldl_cons, List.foldl_nil]

theorem get_process (log : List (Change Inst Build)) (n h : String) :
    get (process log) n h = (valueAfter (log.map atHost) (n, h)).getD MicroAPP.zero := by
  rw [get_eq_node, node_process]

/-! ## Finding a running instance -/

/-- An instance of the service at the host is in etcd. -/
def Running (log : List (Change Inst Build)) (name host : String) : Prop :=
  ∃ i : Inst, i.name = name ∧ i.host = host ∧ Bound log i

/-- `get` returns an instance whose key is there when there is one, and the zero value only when
    there is none. -/
def Finds (log : List (Change Inst Build)) (name host : String) : Prop :=
  (Running log name host → ∃ (i : Inst) (b : Build), i.name = name ∧ i.host = host ∧
      valueAfter log i = some b ∧ get (process log) name host = i.announce b) ∧
    (get (process log) name host = MicroAPP.zero → ¬ Running log name host)

/-- The last change of the service at the host, of any port. -/
def lastAt (log : List (Change Inst Build)) (name host : String) : Option (Change Inst Build) :=
  log.reverse.find? fun e => e.key.name = name ∧ e.key.host = host

/-- The change announces an instance, and not the zero value. -/
def Announces (e : Change Inst Build) : Prop :=
  ∃ b, e.img = some b ∧ e.key.announce b ≠ MicroAPP.zero

theorem not_running_of_lastAt {log : List (Change Inst Build)} {name host : String}
    (h : lastAt log name host = none) : ¬ Running log name host := by
  rintro ⟨i, hn, hh, hb⟩
  obtain ⟨e, he, rfl⟩ := exists_of_bound hb
  have hno := List.find?_eq_none.mp h e (List.mem_reverse.mpr he)
  simp [hn, hh] at hno

/-- What the last change says: of its own instance, and of the host in the table. -/
theorem lastAt_spec {log : List (Change Inst Build)} {name host : String} {e : Change Inst Build}
    (h : lastAt log name host = some e) : e.key.name = name ∧ e.key.host = host ∧
      valueAfter log e.key = e.img ∧
      valueAfter (log.map atHost) (name, host) = e.img.map e.key.announce := by
  obtain ⟨hp, as, bs, hrev, hno⟩ := List.find?_eq_some_iff_append.mp h
  obtain ⟨rfl, rfl⟩ : e.key.name = name ∧ e.key.host = host := by simpa using hp
  have hlog : log = bs.reverse ++ e :: as.reverse := by
    rw [← List.reverse_reverse log, hrev]
    simp
  have hafter : ∀ e' ∈ as.reverse, ¬ (e'.key.name = e.key.name ∧ e'.key.host = e.key.host) := by
    intro e' he' hat
    have hfalse := hno e' (List.mem_reverse.mp he')
    simp [hat] at hfalse
  refine ⟨rfl, rfl, ?_, ?_⟩
  · rw [hlog]
    exact valueAfter_last _ _ fun e' he' hk => hafter e' he' (hk ▸ ⟨rfl, rfl⟩)
  · rw [hlog, List.map_append, List.map_cons]
    refine valueAfter_last _ (atHost e) fun e' he' hk => ?_
    obtain ⟨e₀, he₀, rfl⟩ := List.mem_map.mp he'
    exact hafter e₀ he₀ (Prod.mk.inj hk)

/-- `get` is right exactly when nothing runs there, or the last change there announced an
    instance. -/
theorem finds_iff (log : List (Change Inst Build)) (name host : String) :
    Finds log name host ↔
      ¬ Running log name host ∨ ∃ e, lastAt log name host = some e ∧ Announces e := by
  cases hlast : lastAt log name host with
  | none =>
    have hnot := not_running_of_lastAt hlast
    exact ⟨fun _ => Or.inl hnot, fun _ => ⟨fun hr => absurd hr hnot, fun _ => hnot⟩⟩
  | some e =>
    obtain ⟨hn, hh, hval, htable⟩ := lastAt_spec hlast
    have hget : get (process log) name host = (e.img.map e.key.announce).getD MicroAPP.zero := by
      rw [get_process, htable]
    constructor
    · intro hf
      by_cases hr : Running log name host
      · refine Or.inr ⟨e, rfl, ?_⟩
        have hne : get (process log) name host ≠ MicroAPP.zero := fun h0 => hf.2 h0 hr
        obtain ⟨i, _ | b⟩ := e
        · exact absurd hget hne
        · refine ⟨b, rfl, ?_⟩
          rwa [hget] at hne
      · exact Or.inl hr
    · rintro (hnot | ⟨_, ⟨⟩, b, himg, hne⟩)
      · exact ⟨fun hr => absurd hr hnot, fun _ => hnot⟩
      · rw [himg, Option.map_some, Option.getD_some] at hget
        exact ⟨fun _ => ⟨e.key, b, hn, hh, hval.trans himg, hget⟩,
          fun h0 => absurd (hget.symm.trans h0) hne⟩

def oldNode : Inst := ⟨"dbs/faas", "10.0.0.1", 8080, by decide, by decide⟩

def newNode : Inst := ⟨"dbs/faas", "10.0.0.1", 8081, by decide, by decide⟩

/-- A redeploy: the new process is there before the key of the old one expires. -/
def redeploy : List (Change Inst Build) :=
  [⟨oldNode, some ⟨"key", 17, "", "", ""⟩⟩, ⟨newNode, some ⟨"key", 18, "", "", ""⟩⟩,
    ⟨oldNode, none⟩]

/-- The new process runs and `get` returns the zero value. -/
theorem overlap_lost : ¬ Finds redeploy "dbs/faas" "10.0.0.1" := by
  intro hf
  have hzero : get (process redeploy) "dbs/faas" "10.0.0.1" = MicroAPP.zero := by
    rw [get_process]
    decide
  exact hf.2 hzero ⟨newNode, rfl, rfl, by decide⟩

end Doodle.Distributor
