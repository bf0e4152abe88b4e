/-
  Instances in etcd: `meta.MicroAPP`, the key `service/keepalive.go` writes for an instance, and
  the cut of a key that the gateway (`repeater/backend.go`) and the distributor
  (`distributor/watcher.go`) make, the same in the four places.

  The value under a key is the JSON text of a `MicroAPP`; writer and readers use `encoding/json` on
  one Go type, so the model keeps the value as it is read back.

  * `cutKey_apiKey`: the cut gives project, host and port back, for every project name.
  * `Inst.key_inj`: different instances have different keys.
-/
import Doodle.Go.Strings
import Doodle.Go.Strconv
import Doodle.Lib.EventLog

namespace Doodle.Service

open Doodle.Go Doodle.Lib

/-- `meta.MicroAPP`. -/
structure MicroAPP where
  serviceKey : String
  host : String
  port : Int
  pid : Int
  gitHash : String
  gitTime : String
  gitMessage : String
  deriving DecidableEq, Repr, Inhabited

/-- `meta.MicroAPP{}` -/
def MicroAPP.zero : MicroAPP := ⟨"", "", 0, 0, "", "", ""⟩

/-- `apiKey`, where `project` is `debug.Project`. -/
def apiKey (project host : String) (port : Nat) : String :=
  "/api/" ++ project ++ "/" ++ host ++ "/" ++ port.repr

/-- The parts of a key: the name from the third part on, the last but one, the last. `none` for a
    key of fewer than four parts, which the loops skip. -/
def cutKey (key : String) : Option (String × String × String) :=
  let ss := split key '/'
  if ss.length < 4 then none
  else some (join ((ss.drop 2).take (ss.length - 4)) '/',
    ss.getD (ss.length - 2) "", ss.getD (ss.length - 1) "")

theorem split_apiKey (project host : String) (port : Nat) (hh : '/' ∉ host.toList) :
    split (apiKey project host port) '/' = ["", "api"] ++ split project '/' ++ [host, port.repr] := by
  have hport : '/' ∉ port.repr.toList := by
    rw [Nat.toList_repr]
    intro hc
    exact absurd (Nat.isDigit_of_mem_toDigits (by decide) (by decide) hc) (by decide)
  have hslash : ("/" : String) = String.singleton '/' := by decide
  have hapi : ("/api/" : String) = "/api" ++ String.singleton '/' := by decide
  unfold apiKey
  rw [hapi, hslash, split_append, split_append, split_append, split_of_not_mem hport,
    split_of_not_mem hh]
  have h0 : split "/api" '/' = ["", "api"] := by decide
  rw [h0, List.append_assoc]
  rfl

/-- The cut of an instance's key. -/
theorem cutKey_apiKey (project host : String) (port : Nat) (hh : '/' ∉ host.toList) :
    cutKey (apiKey project host port) = some (project, host, port.repr) := by
  unfold cutKey
  rw [split_apiKey project host port hh]
  generalize hl : split project '/' = l
  have hlen : (["", "api"] ++ l ++ [host, port.repr]).length = l.length + 4 := by simp
  have hname : ((["", "api"] ++ l ++ [host, port.repr]).drop 2).take (l.length + 4 - 4) = l := by
    simp
  have hhost : (["", "api"] ++ l ++ [host, port.repr]).getD (l.length + 4 - 2) "" = host := by
    simp [List.getD_eq_getElem?_getD]
  have hp : (["", "api"] ++ l ++ [host, port.repr]).getD (l.length + 4 - 1) "" = port.repr := by
    simp [List.getD_eq_getElem?_getD]
  have hnot : ¬ l.length + 4 < 4 := by omega
  simp only [hlen, if_neg hnot, hname, hhost, hp]
  rw [← hl, join_split]

/-! ## Instances -/

/-- An instance of a project: an address has no slash, a port is one of TCP's. -/
structure Inst where
  name : String
  host : String
  port : Nat
  host_plain : '/' ∉ host.toList
  port_lt : port < 65536

namespace Inst

/-- Where `newKeepalive` writes the instance. -/
def key (i : Inst) : String := apiKey i.name i.host i.port

theorem cutKey_key (i : Inst) : cutKey i.key = some (i.name, i.host, i.port.repr) :=
  cutKey_apiKey i.name i.host i.port i.host_plain

theorem atoi_port (i : Inst) : atoi i.port.repr = i.port :=
  atoi_repr (by have := i.port_lt; omega)

theorem ext_of_fields {i j : Inst} (hn : i.name = j.name) (hh : i.host = j.host)
    (hp : i.port = j.port) : i = j := by
  cases i
  cases j
  simp_all

theorem key_inj {i j : Inst} (h : i.key = j.key) : i = j := by
  have hc := i.cutKey_key
  rw [h, j.cutKey_key] at hc
  obtain ⟨hn, hh, hp⟩ : j.name = i.name ∧ j.host = i.host ∧ j.port.repr = i.port.repr := by
    simpa using hc
  have hport : (j.port : Int) = i.port := by
    rw [← j.atoi_port, ← i.atoi_port, hp]
  exact ext_of_fields hn.symm hh.symm (by omega)

instance : DecidableEq Inst := fun i j =>
  if h : i.name = j.name ∧ i.host = j.host ∧ i.port = j.port then
    isTrue (ext_of_fields h.1 h.2.1 h.2.2)
  else isFalse fun e => h (e ▸ ⟨rfl, rfl, rfl⟩)

end Inst

/-- What `newKeepalive` announces of a process besides its address. -/
structure Build where
  serviceKey : String
  pid : Int
  gitHash : String
  gitTime : String
  gitMessage : String
  deriving DecidableEq, Repr

/-- The value under an instance's key: `NewMicroAPP` of its own address. -/
def Inst.announce (i : Inst) (b : Build) : MicroAPP :=
  ⟨b.serviceKey, i.host, i.port, b.pid, b.gitHash, b.gitTime, b.gitMessage⟩

/-- A change of an instance as etcd reports it. -/
def wire (e : Change Inst Build) : Change String MicroAPP := ⟨e.key.key, e.img.map e.key.announce⟩

example : cutKey "/api/git/dbs/faas/10.0.0.1/80" = some ("git/dbs/faas", "10.0.0.1", "80") := by
  decide

end Doodle.Service
