/-
  The instance table of the gateway over a whole stream of etcd events: the loop of `start`, from
  the empty table.

  One event keeps the table genuine and decides whether its own instance is listed
  (`genuine_onEvent`, `listed_onEvent`); over the stream (`genuine_stream`, `listed_stream`) this
  makes the table say of every address what the last event of its key said (`stream_reflects`).
-/
import Doodle.Repeater.Gateway

namespace Doodle.Repeater

open Doodle.Go Doodle.Lib Doodle.Service

/-- The table after the events. -/
def stream (events : List (Change String MicroAPP)) : Apps := events.foldl onEvent Apps.empty

theorem stream_concat (log : List (Change Inst Build)) (e : Change Inst Build) :
    stream ((log ++ [e]).map wire) = onEvent (stream (log.map wire)) (wire e) := by
  unfold stream
  rw [List.map_append, List.foldl_append, List.map_singleton, List.foldl_cons, List.foldl_nil]

theorem genuine_stream (log : List (Change Inst Build)) : Genuine (stream (log.map wire)) := by
  induction log using List.reverseRecOn with
  | nil => exact genuine_empty
  | append_singleton l e ih =>
    rw [stream_concat]
    exact genuine_onEvent ih e

theorem listed_stream (log : List (Change Inst Build)) (i : Inst) :
    Listed (stream (log.map wire)) i ↔ Bound log i := by
  induction log using List.reverseRecOn with
  | nil => exact ⟨fun h => absurd h (not_keeps_empty i.name i.host i.port), nofun⟩
  | append_singleton l e ih =>
    rw [stream_concat, listed_onEvent (genuine_stream l), bound_concat, ih]

/-- The table mirrors the events: each name has a list without two entries of one address and
    never an empty one, so that `buildRequest` finds an entry at whatever time it picks, and an
    address is listed when the last event of its key was a PUT. -/
structure Reflects (log : List (Change Inst Build)) (apps : Apps) : Prop where
  once : ∀ name l, apps name = some l →
    l.Pairwise fun a b => ¬ (a.host = b.host ∧ a.port = b.port)
  ne_nil : ∀ name l, apps name = some l → l ≠ []
  picks : ∀ name l (now : Int), apps name = some l → 0 ≤ now →
    ∃ app ∈ l, Gateway.pick l now = .ok app
  last : ∀ name host port, Keeps apps name host port ↔
    ∃ (i : Inst) (e : Change Inst Build), i.name = name ∧ i.host = host ∧ (i.port : Int) = port ∧
      lastChange log i = some e ∧ e.img.isSome

/-- The loop of `start` mirrors every stream of events. -/
theorem stream_reflects (log : List (Change Inst Build)) :
    Reflects log (stream (log.map wire)) := by
  have hgen := genuine_stream log
  refine ⟨hgen.tidy.once, hgen.tidy.ne_nil, fun name l now hl hnow => ?_,
    fun name host port => ?_⟩
  · exact Gateway.pick_ok (hgen.tidy.ne_nil name l hl) hnow
  · constructor
    · intro hk
      obtain ⟨i, rfl, rfl, rfl⟩ := hgen.only name host port hk
      obtain ⟨e, he, hput⟩ := (bound_iff_lastChange log i).mp ((listed_stream log i).mp hk)
      exact ⟨i, e, rfl, rfl, rfl, he, hput⟩
    · rintro ⟨i, e, rfl, rfl, rfl, he, hput⟩
      exact (listed_stream log i).mpr ((bound_iff_lastChange log i).mpr ⟨e, he, hput⟩)

end Doodle.Repeater
