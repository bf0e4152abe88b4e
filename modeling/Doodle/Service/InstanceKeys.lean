/-
  The keys of instances, from the writer to the two tables that are read from them.

  `newKeepalive` writes an instance under `apiKey`. The gateway and the distributor cut the key in
  four loops, `start` and `load` of `backendService` and of `watcher`. `Decoded i` says what the
  four make of the key of `i`: they work on the name, the host and the port `i` has.
  `decoded_instanceKeys`: this is so for every instance, and no two have one key.

  A put and an entry of the list carry the address in their value, so of the key they use the name
  only; the distributor's deletes have no port.
-/
import Doodle.Distributor.Watcher
import Doodle.Repeater.Backend

namespace Doodle.Service

open Doodle.Go Doodle.Lib

/-- What the four loops read from the key of an instance. -/
structure Decoded (i : Inst) : Prop where
  parts : ∃ port, cutKey i.key = some (i.name, i.host, port) ∧ atoi port = i.port
  gatewayDelete : ∀ apps,
    Repeater.onEvent apps ⟨i.key, none⟩ = Repeater.unregister apps i.name i.host i.port
  gatewayPut : ∀ apps app,
    Repeater.onEvent apps ⟨i.key, some app⟩ = Repeater.register apps i.name app
  gatewayLoad : ∀ apps app,
    Repeater.loadEntry apps i.key app = Repeater.register apps i.name app
  watcherDelete : ∀ ws,
    Distributor.onEvent ws ⟨i.key, none⟩ = Distributor.offline ws i.name i.host
  watcherPut : ∀ ws app,
    Distributor.onEvent ws ⟨i.key, some app⟩ = Distributor.online ws i.name app
  watcherLoad : ∀ ws app,
    Distributor.loadEntry ws i.key app = Distributor.online ws i.name app

theorem Inst.decoded (i : Inst) : Decoded i where
  parts := ⟨i.port.repr, i.cutKey_key, i.atoi_port⟩
  gatewayDelete apps := by simp only [Repeater.onEvent, i.cutKey_key, i.atoi_port]
  gatewayPut apps app := by simp only [Repeater.onEvent, i.cutKey_key]
  gatewayLoad apps app := by simp only [Repeater.loadEntry, i.cutKey_key]
  watcherDelete ws := by simp only [Distributor.onEvent, i.cutKey_key]
  watcherPut ws app := by simp only [Distributor.onEvent, i.cutKey_key]
  watcherLoad ws app := by simp only [Distributor.loadEntry, i.cutKey_key]

theorem decoded_instanceKeys : (∀ i : Inst, Decoded i) ∧ Function.Injective Inst.key :=
  ⟨Inst.decoded, fun _ _ => Inst.key_inj⟩

end Doodle.Service
