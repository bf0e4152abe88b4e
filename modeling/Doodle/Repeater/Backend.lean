/-
  `backendService` of `repeater/backend.go`: the table of running instances the gateway forwards
  to, and what one etcd event or one entry of the initial list does to it.

  `Keeps apps name host port` says that the table lists such an instance. `register` adds one
  (`keeps_register`) and leaves what is listed; `unregister` takes one out
  (`keeps_unregister`). The second needs the invariant `Tidy`, which both keep: no name has two
  entries of one address, and no name an empty list.

  For instances announced by `newKeepalive` these come to `listed_onEvent` and
  `listed_loadEntry`: an event decides whether its own instance is listed and touches no other.
-/
import Doodle.Go.Result
import Doodle.Lib.EventLog
import Doodle.Service.Keepalive

namespace Doodle.Repeater

open Doodle.Go Doodle.Lib Doodle.Service

/-- `bs.apps`. -/
abbrev Apps := String → Option (List MicroAPP)

namespace Apps

/-- `make(map[string][]meta.MicroAPP)`. -/
def empty : Apps := fun _ => none

def set (apps : Apps) (name : String) (l : Option (List MicroAPP)) : Apps :=
  fun n => if n = name then l else apps n

@[simp] theorem set_self (apps : Apps) (name : String) (l : Option (List MicroAPP)) :
    apps.set name l name = l := if_pos rfl

theorem set_of_ne (apps : Apps) {name n : String} (l : Option (List MicroAPP)) (h : n ≠ name) :
    apps.set name l n = apps n := if_neg h

end Apps

/-- The address the loops of `register` and `unregister` compare. -/
def isAt (host : String) (port : Int) (app : MicroAPP) : Bool := app.host == host && app.port == port

theorem isAt_iff (host : String) (port : Int) (app : MicroAPP) :
    isAt host port app = true ↔ app.host = host ∧ app.port = port := by
  simp [isAt]

def register (apps : Apps) (name : String) (app : MicroAPP) : Apps :=
  match apps name with
  | none => apps.set name (some [app])
  | some l => if l.any (isAt app.host app.port) then apps else apps.set name (some (l ++ [app]))

/-- `unregister`: the first entry of that address goes, and the name with its last entry. -/
def unregister (apps : Apps) (name host : String) (port : Int) : Apps :=
  match apps name with
  | none => apps
  | some l =>
    if l.any (isAt host port) then
      if l.length = 1 then apps.set name none
      else apps.set name (some (l.eraseP (isAt host port)))
    else apps

/-- `getMicroAPPs`; `none` is its `errNotFound`. -/
def getMicroAPPs (apps : Apps) (name : String) : Option (List MicroAPP) := apps name

/-- One round of the loop of `start`. -/
def onEvent (apps : Apps) (e : Change String MicroAPP) : Apps :=
  match cutKey e.key with
  | none => apps
  | some (name, host, port) =>
    match e.img with
    | none => unregister apps name host (atoi port)
    | some app => register apps name app

/-- One round of the loop of `load`, for the entry of `key`. -/
def loadEntry (apps : Apps) (key : String) (app : MicroAPP) : Apps :=
  match cutKey key with
  | none => apps
  | some (name, _, _) => register apps name app

/-! ## What the table lists -/

/-- The table lists an instance of `name` at this address. -/
def Keeps (apps : Apps) (name host : String) (port : Int) : Prop :=
  ∃ l, apps name = some l ∧ ∃ app ∈ l, app.host = host ∧ app.port = port

/-- One entry an address, and no empty list. -/
structure Tidy (apps : Apps) : Prop where
  ne_nil : ∀ name l, apps name = some l → l ≠ []
  once : ∀ name l, apps name = some l → l.Pairwise fun a b => ¬ (a.host = b.host ∧ a.port = b.port)

theorem tidy_empty : Tidy Apps.empty where
  ne_nil _ _ h := by cases h
  once _ _ h := by cases h

theorem not_keeps_empty (name host : String) (port : Int) : ¬ Keeps Apps.empty name host port := by
  rintro ⟨l, hl, -⟩
  cases hl

/-- A table changed at one name is tidy when the new list is. -/
theorem Tidy.set {apps : Apps} (h : Tidy apps) (name : String) (l : Option (List MicroAPP))
    (hne : ∀ l', l = some l' → l' ≠ [])
    (hp : ∀ l', l = some l' → l'.Pairwise fun a b => ¬ (a.host = b.host ∧ a.port = b.port)) :
    Tidy (apps.set name l) := by
  refine ⟨fun n l' hl' => ?_, fun n l' hl' => ?_⟩
  · by_cases hn : n = name
    · rw [hn, Apps.set_self] at hl'
      exact hne l' hl'
    · rw [Apps.set_of_ne apps l hn] at hl'
      exact h.ne_nil n l' hl'
  · by_cases hn : n = name
    · rw [hn, Apps.set_self] at hl'
      exact hp l' hl'
    · rw [Apps.set_of_ne apps l hn] at hl'
      exact h.once n l' hl'

theorem keeps_set (apps : Apps) (name : String) (l : Option (List MicroAPP)) (n host : String)
    (port : Int) :
    Keeps (apps.set name l) n host port ↔
      (n = name ∧ ∃ l', l = some l' ∧ ∃ app ∈ l', app.host = host ∧ app.port = port) ∨
        (n ≠ name ∧ Keeps apps n host port) := by
  unfold Keeps
  by_cases hn : n = name
  · subst hn
    simp
  · rw [Apps.set_of_ne apps l hn]
    simp [hn]

/-- No entry of the address, as the loop of `register` found. -/
theorem any_isAt_iff (l : List MicroAPP) (host : String) (port : Int) :
    l.any (isAt host port) = true ↔ ∃ app ∈ l, app.host = host ∧ app.port = port := by
  simp only [List.any_eq_true, isAt_iff]

theorem tidy_register {apps : Apps} (h : Tidy apps) (name : String) (app : MicroAPP) :
    Tidy (register apps name app) := by
  unfold register
  cases hl : apps name with
  | none =>
    refine h.set name _ ?_ ?_
    · rintro l' ⟨⟩
      exact List.cons_ne_nil _ _
    · rintro l' ⟨⟩
      exact List.pairwise_singleton _ _
  | some l =>
    by_cases ha : l.any (isAt app.host app.port) = true
    · simpa only [ha, if_true] using h
    · simp only [ha, Bool.false_eq_true, if_false]
      rw [any_isAt_iff] at ha
      refine h.set name _ ?_ ?_
      · rintro l' ⟨⟩
        simp
      · rintro l' ⟨⟩
        refine List.pairwise_append.mpr ⟨h.once name l hl, List.pairwise_singleton _ _, ?_⟩
        intro a hm b hb hab
        obtain rfl := List.mem_singleton.mp hb
        exact ha ⟨a, hm, hab⟩

theorem keeps_register (apps : Apps) (name : String) (app : MicroAPP) (n host : String)
    (port : Int) :
    Keeps (register apps name app) n host port ↔
      Keeps apps n host port ∨ (n = name ∧ app.host = host ∧ app.port = port) := by
  unfold register
  cases hl : apps name with
  | none =>
    rw [keeps_set]
    by_cases hn : n = name
    · subst hn
      simp [Keeps, hl]
    · simp [hn]
  | some l =>
    by_cases ha : l.any (isAt app.host app.port) = true
    · simp only [ha, if_true]
      refine ⟨Or.inl, ?_⟩
      rintro (h | ⟨rfl, rfl, rfl⟩)
      · exact h
      · exact ⟨l, hl, (any_isAt_iff l _ _).mp ha⟩
    · simp only [ha, Bool.false_eq_true, if_false]
      rw [keeps_set]
      by_cases hn : n = name
      · subst hn
        simp [Keeps, hl, or_and_right, exists_or]
      · simp [hn]

theorem eraseP_ne_nil {l : List MicroAPP} {p : MicroAPP → Bool} (h : l.length ≠ 1) (hl : l ≠ []) :
    l.eraseP p ≠ [] := by
  have hpos := List.length_pos_iff.mpr hl
  have hlen : l.length - 1 ≤ (l.eraseP p).length := List.le_length_eraseP
  intro he
  rw [he] at hlen
  simp only [List.length_nil] at hlen
  omega

theorem tidy_unregister {apps : Apps} (h : Tidy apps) (name host : String) (port : Int) :
    Tidy (unregister apps name host port) := by
  unfold unregister
  cases hl : apps name with
  | none => exact h
  | some l =>
    simp only
    split
    · split
      · exact h.set name _ (fun _ h => by cases h) (fun _ h => by cases h)
      · next hone =>
        refine h.set name _ ?_ ?_
        · rintro l' ⟨⟩
          exact eraseP_ne_nil hone (h.ne_nil name l hl)
        · rintro l' ⟨⟩
          exact (h.once name l hl).sublist List.eraseP_sublist
    · exact h

/-- With one entry an address, erasing the first entry of an address erases the address. -/
theorem mem_eraseP_isAt {l : List MicroAPP} {host : String} {port : Int}
    (h : l.Pairwise fun a b => ¬ (a.host = b.host ∧ a.port = b.port)) (app : MicroAPP) :
    app ∈ l.eraseP (isAt host port) ↔ app ∈ l ∧ ¬ (app.host = host ∧ app.port = port) := by
  induction l with
  | nil => simp
  | cons a l ih =>
    obtain ⟨hhead, htail⟩ := List.pairwise_cons.mp h
    by_cases ha : isAt host port a = true
    · rw [List.eraseP_cons_of_pos ha]
      rw [isAt_iff] at ha
      constructor
      · intro hm
        refine ⟨List.mem_cons_of_mem _ hm, fun hb => hhead app hm ⟨?_, ?_⟩⟩
        · rw [ha.1, hb.1]
        · rw [ha.2, hb.2]
      · rintro ⟨hm, hb⟩
        rcases List.mem_cons.mp hm with rfl | hm
        · exact absurd ha hb
        · exact hm
    · rw [List.eraseP_cons_of_neg ha, List.mem_cons, List.mem_cons, ih htail]
      rw [isAt_iff] at ha
      constructor
      · rintro (rfl | ⟨hm, hb⟩)
        · exact ⟨Or.inl rfl, ha⟩
        · exact ⟨Or.inr hm, hb⟩
      · rintro ⟨rfl | hm, hb⟩
        · exact Or.inl rfl
        · exact Or.inr ⟨hm, hb⟩

/-- What is left at an address after the first entry of some address was erased. -/
theorem exists_eraseP_isAt {l : List MicroAPP}
    (h : l.Pairwise fun a b => ¬ (a.host = b.host ∧ a.port = b.port)) (host : String) (port : Int)
    (host' : String) (port' : Int) :
    (∃ app ∈ l.eraseP (isAt host port), app.host = host' ∧ app.port = port') ↔
      (∃ app ∈ l, app.host = host' ∧ app.port = port') ∧ ¬ (host' = host ∧ port' = port) := by
  constructor
  · rintro ⟨app, hm, rfl, rfl⟩
    obtain ⟨hm, hne⟩ := (mem_eraseP_isAt h app).mp hm
    exact ⟨⟨app, hm, rfl, rfl⟩, hne⟩
  · rintro ⟨⟨app, hm, rfl, rfl⟩, hne⟩
    exact ⟨app, (mem_eraseP_isAt h app).mpr ⟨hm, hne⟩, rfl, rfl⟩

theorem eraseP_isAt_eq_nil {l : List MicroAPP} {host : String} {port : Int}
    (ha : l.any (isAt host port) = true) (hone : l.length = 1) : l.eraseP (isAt host port) = [] := by
  obtain ⟨app, hm, hp⟩ := List.any_eq_true.mp ha
  have hlen := List.length_eraseP_of_mem hm hp
  rw [hone] at hlen
  exact List.eq_nil_of_length_eq_zero hlen

theorem keeps_unregister {apps : Apps} (h : Tidy apps) (name host : String) (port : Int)
    (n host' : String) (port' : Int) :
    Keeps (unregister apps name host port) n host' port' ↔
      Keeps apps n host' port' ∧ ¬ (n = name ∧ host' = host ∧ port' = port) := by
  by_cases hn : n = name
  · subst hn
    simp only [true_and]
    unfold unregister
    cases hl : apps n with
    | none => simp [Keeps, hl]
    | some l =>
      have herase := exists_eraseP_isAt (h.once n l hl) host port host' port'
      by_cases ha : l.any (isAt host port) = true
      · by_cases hone : l.length = 1
        · rw [eraseP_isAt_eq_nil ha hone] at herase
          simpa [Keeps, ha, hone, hl] using herase
        · simpa only [Keeps, ha, hone, hl, if_true, if_false, Apps.set_self, Option.some.injEq,
            exists_eq_left'] using herase
      · simp only [ha, Bool.false_eq_true, if_false]
        refine ⟨fun hk => ⟨hk, ?_⟩, fun hk => hk.1⟩
        rintro ⟨rfl, rfl⟩
        obtain ⟨l', hl', hk⟩ := hk
        rw [hl, Option.some.injEq] at hl'
        exact ha ((any_isAt_iff l _ _).mpr (hl' ▸ hk))
  · -- another name: whatever happens, its list stays
    have hsame : unregister apps name host port n = apps n := by
      unfold unregister
      cases apps name with
      | none => rfl
      | some l =>
        simp only
        split
        · split <;> exact Apps.set_of_ne apps _ hn
        · rfl
    simp [Keeps, hsame, hn]

/-! ## Announced instances -/

/-- The table lists the instance. -/
def Listed (apps : Apps) (i : Inst) : Prop := Keeps apps i.name i.host i.port

/-- A tidy table that lists announced instances only. -/
structure Genuine (apps : Apps) : Prop where
  tidy : Tidy apps
  only : ∀ name host port, Keeps apps name host port →
    ∃ i : Inst, i.name = name ∧ i.host = host ∧ (i.port : Int) = port

theorem genuine_empty : Genuine Apps.empty where
  tidy := tidy_empty
  only name host port h := absurd h (not_keeps_empty name host port)

theorem inst_eq_iff (i j : Inst) :
    (j.name = i.name ∧ i.host = j.host ∧ (i.port : Int) = j.port) ↔ i = j := by
  constructor
  · rintro ⟨hn, hh, hp⟩
    exact Inst.ext_of_fields hn.symm hh (by omega)
  · rintro rfl
    exact ⟨rfl, rfl, rfl⟩

theorem onEvent_put (apps : Apps) (i : Inst) (b : Build) :
    onEvent apps (wire ⟨i, some b⟩) = register apps i.name (i.announce b) := by
  simp only [onEvent, wire, Inst.cutKey_key, Option.map_some]

theorem onEvent_delete (apps : Apps) (i : Inst) :
    onEvent apps (wire ⟨i, none⟩) = unregister apps i.name i.host i.port := by
  simp only [onEvent, wire, Inst.cutKey_key, Option.map_none, Inst.atoi_port]

theorem loadEntry_key (apps : Apps) (i : Inst) (b : Build) :
    loadEntry apps i.key (i.announce b) = register apps i.name (i.announce b) := by
  simp only [loadEntry, Inst.cutKey_key]

theorem listed_register (apps : Apps) (i : Inst) (b : Build) (j : Inst) :
    Listed (register apps i.name (i.announce b)) j ↔ Listed apps j ∨ i = j := by
  unfold Listed
  rw [keeps_register, ← inst_eq_iff i j]
  rfl

theorem listed_unregister {apps : Apps} (h : Tidy apps) (i j : Inst) :
    Listed (unregister apps i.name i.host i.port) j ↔ Listed apps j ∧ i ≠ j := by
  unfold Listed
  rw [keeps_unregister h, ne_eq, ← inst_eq_iff i j]
  constructor
  · rintro ⟨hk, hne⟩
    exact ⟨hk, fun he => hne ⟨he.1, he.2.1.symm, he.2.2.symm⟩⟩
  · rintro ⟨hk, hne⟩
    exact ⟨hk, fun he => hne ⟨he.1, he.2.1.symm, he.2.2.symm⟩⟩

theorem genuine_register {apps : Apps} (h : Genuine apps) (i : Inst) (b : Build) :
    Genuine (register apps i.name (i.announce b)) := by
  refine ⟨tidy_register h.tidy _ _, fun name host port hk => ?_⟩
  rcases (keeps_register apps _ _ name host port).mp hk with hk | ⟨rfl, rfl, rfl⟩
  · exact h.only name host port hk
  · exact ⟨i, rfl, rfl, rfl⟩

theorem genuine_unregister {apps : Apps} (h : Genuine apps) (i : Inst) :
    Genuine (unregister apps i.name i.host i.port) := by
  refine ⟨tidy_unregister h.tidy _ _ _, fun name host port hk => ?_⟩
  exact h.only name host port ((keeps_unregister h.tidy _ _ _ _ _ _).mp hk).1

/-- An event keeps the table genuine. -/
theorem genuine_onEvent {apps : Apps} (h : Genuine apps) (e : Change Inst Build) :
    Genuine (onEvent apps (wire e)) := by
  obtain ⟨i, _ | b⟩ := e
  · rw [onEvent_delete]
    exact genuine_unregister h i
  · rw [onEvent_put]
    exact genuine_register h i b

/-- After an event its instance is listed exactly when it was a PUT, and the others as before. -/
theorem listed_onEvent {apps : Apps} (h : Genuine apps) (e : Change Inst Build) (j : Inst) :
    Listed (onEvent apps (wire e)) j ↔
      (e.key = j ∧ e.img.isSome) ∨ (e.key ≠ j ∧ Listed apps j) := by
  obtain ⟨i, _ | b⟩ := e
  · rw [onEvent_delete, listed_unregister h.tidy]
    simp [and_comm]
  · rw [onEvent_put, listed_register]
    by_cases hij : i = j
    · simp [hij]
    · simp [hij]

theorem listed_loadEntry (apps : Apps) (i : Inst) (b : Build) (j : Inst) :
    Listed (loadEntry apps i.key (i.announce b)) j ↔ Listed apps j ∨ i = j := by
  rw [loadEntry_key]
  exact listed_register apps i b j

end Doodle.Repeater
