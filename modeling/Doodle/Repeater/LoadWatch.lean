/-
  `Init` of `repeater/init.go` starts the watch (`go nbs.start()`) and loads the instances
  (`nbs.load()`) at the same time. This module is the system of the two and of etcd.

  etcd is the log of changes to instance keys. The watch delivers, in order, the changes after the
  one at which it was created. `load` takes one list of what is there and registers its entries
  one by one; the list stands in the order Go ranges over the map. The steps of the three
  interleave in any way (`Lib.ListWatch`, with the instance table as the copy).

  * `careful_mirrors`: in a run of careful steps, whenever load is done and the watch has delivered
    all there is, the table lists exactly the instances in etcd.
  * `stale_kept`: a run with one careless step that ends with a dead instance in the table.
-/
import Doodle.Lib.ListWatch
import Doodle.Repeater.Backend

namespace Doodle.Repeater.LoadWatch

open Doodle.Lib Doodle.Lib.ListWatch Doodle.Service

/-! ## The system -/

/-- The instance table as a copy of etcd: `start` applies an event, `load` registers an entry. -/
def table : Copy Inst Build Apps where
  has := Listed
  apply apps e := onEvent apps (wire e)
  add apps i b := loadEntry apps i.key (i.announce b)
  empty := Apps.empty
  Ok := Genuine
  ok_empty := genuine_empty
  ok_apply _ e h := genuine_onEvent h e
  ok_add apps i b h := by
    rw [loadEntry_key]
    exact genuine_register h i b
  has_empty i := not_keeps_empty i.name i.host i.port
  has_apply _ e i h := listed_onEvent h e i
  has_add apps i b j _ := listed_loadEntry apps i b j

abbrev System := State Inst Build Apps

/-- Before `Init`, with what etcd has seen so far. -/
def init (log : List (Change Inst Build)) : System := table.init log

/-- The table lists exactly the instances whose key is in etcd. -/
def Mirrors (s : System) : Prop :=
  ∀ name host port, Keeps s.copy name host port ↔
    ∃ i : Inst, i.name = name ∧ i.host = host ∧ (i.port : Int) = port ∧ Bound s.log i

/-! ## Careful runs -/

theorem mirrors_of_listed {s : System} (h : Genuine s.copy)
    (hlisted : ∀ i, Listed s.copy i ↔ Bound s.log i) : Mirrors s := by
  intro name host port
  constructor
  · intro hk
    obtain ⟨i, rfl, rfl, rfl⟩ := h.only name host port hk
    exact ⟨i, rfl, rfl, rfl, (hlisted i).mp hk⟩
  · rintro ⟨i, rfl, rfl, rfl, hi⟩
    exact (hlisted i).mpr hi

/-- When every step of the run is careful, the table mirrors etcd in each settled state. -/
theorem careful_mirrors (log : List (Change Inst Build)) (as : List (Action Inst Build))
    (s : System) (hrun : run table (init log) as = some s)
    (hcare : CarefulRun table (init log) as) (hs : Settled s) : Mirrors s := by
  have hinv : Inv table s := inv_run (inv_init table log) hcare hrun
  exact mirrors_of_listed hinv.ok fun i => has_iff_of_settled hinv hs i

theorem plain_hostA : '/' ∉ "10.0.0.1".toList := by decide

theorem portA_lt : 8080 < 65536 := by decide

def instA : Inst := ⟨"dbs/faas", "10.0.0.1", 8080, plain_hostA, portA_lt⟩

def buildA : Build := ⟨"key", 17, "", "", ""⟩

/-- The watch is there before the list is taken; the instance goes after the list is loaded. -/
def calmRun : List (Action Inst Build) :=
  [.watch, .list [(instA, buildA)], .add, .change ⟨instA, none⟩, .deliver]

theorem careful_mirrors_calmRun : ∃ s, run table (init [⟨instA, some buildA⟩]) calmRun = some s ∧
    Settled s ∧ Mirrors s := by
  refine ⟨_, rfl, ⟨rfl, _, rfl⟩, ?_⟩
  refine careful_mirrors [⟨instA, some buildA⟩] calmRun _ rfl ?_ ⟨rfl, _, rfl⟩
  refine ⟨nofun, ?_⟩
  rintro s ⟨⟩
  refine ⟨trivial, ?_⟩
  rintro s ⟨⟩
  refine ⟨?_, ?_⟩
  · rintro d n k v left ⟨⟩ ⟨⟩
    exact Or.inl (Nat.le_refl _)
  · rintro s ⟨⟩
    exact ⟨trivial, fun _ _ => ⟨trivial, fun _ _ => trivial⟩⟩

/-- The instance goes while load is between the list and its registration, and the watch is ahead
    of load. -/
def staleRun : List (Action Inst Build) :=
  [.list [(instA, buildA)], .watch, .change ⟨instA, none⟩, .deliver, .add]

/-- The delete finds nothing to remove, and load then registers an instance that is gone. -/
theorem stale_kept : ∃ s, run table (init [⟨instA, some buildA⟩]) staleRun = some s ∧
    Settled s ∧ ¬ Mirrors s := by
  refine ⟨_, rfl, ⟨rfl, _, rfl⟩, fun hm => ?_⟩
  have hkept : Listed (loadEntry Apps.empty instA.key (instA.announce buildA)) instA :=
    (listed_loadEntry Apps.empty instA buildA instA).mpr (Or.inr rfl)
  obtain ⟨i, hn, hh, hp, hb⟩ := (hm instA.name instA.host instA.port).mp hkept
  obtain rfl : i = instA := Inst.ext_of_fields hn hh (by omega)
  exact absurd hb (by decide)

end Doodle.Repeater.LoadWatch
