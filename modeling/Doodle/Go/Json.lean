/-
  `encoding/json`: values, and how a Go variable is set from one.

  A struct is written as an object with its fields under their names, a map as an object, a nil map
  as null. Reading takes the members one by one and sets the field of that name: a member that no
  field has is skipped, a field without a member keeps the value it had, and so does one whose
  member is null. A member of the wrong kind is an error (`none`). Numbers are integers; their size
  is not checked, both ends being int64.
-/
import Mathlib.Tactic.Common

namespace Doodle.Go

inductive Json where
  | null
  | bool (b : Bool)
  | num (n : Int)
  | str (s : String)
  | arr (vs : List Json)
  | obj (members : List (String × Json))

namespace Json

/-- Set an integer field that holds `old`. -/
def setInt (old : Int) : Json → Option Int
  | null => some old
  | num n => some n
  | _ => none

def setStr (old : String) : Json → Option String
  | null => some old
  | str s => some s
  | _ => none

def setBool (old : Bool) : Json → Option Bool
  | null => some old
  | bool b => some b
  | _ => none

/-! ## Structs and slices -/

/-- A field of a struct `S`: its name, its value and how it is replaced. -/
inductive Member (S : Type) where
  | int (name : String) (get : S → Int) (put : Int → S → S)
  | str (name : String) (get : S → String) (put : String → S → S)

section Members

variable {S : Type}

def Member.name : Member S → String
  | int name _ _ => name
  | str name _ _ => name

def Member.json (s : S) : Member S → Json
  | int _ get _ => num (get s)
  | str _ get _ => .str (get s)

/-- Set the field from a value. -/
def Member.load (v : Json) (s : S) : Member S → Option S
  | int _ get put => (setInt (get s) v).map (put · s)
  | str _ get put => (setStr (get s) v).map (put · s)

/-- Take the field over from another struct. -/
def Member.copy (src s : S) : Member S → S
  | int _ get put => put (get src) s
  | str _ get put => put (get src) s

theorem Member.load_json (src s : S) (m : Member S) :
    m.load (m.json src) s = some (m.copy src s) := by
  cases m with
  | int name get put => rfl
  | str name get put => rfl

def writeStruct (ms : List (Member S)) (s : S) : Json := obj (ms.map fun m => (m.name, m.json s))

/-- The members of an object, one after another. -/
def loadMembers (ms : List (Member S)) : List (String × Json) → S → Option S
  | [], s => some s
  | (key, v) :: vs, s =>
    match ms.find? fun m => m.name == key with
    | some m => (m.load v s).bind (loadMembers ms vs)
    | none => loadMembers ms vs s

def readStruct (ms : List (Member S)) (zero : S) : Json → Option S
  | null => some zero
  | obj vs => loadMembers ms vs zero
  | _ => none

theorem find?_name {ms : List (Member S)} (hnodup : (ms.map Member.name).Nodup) {m : Member S}
    (hm : m ∈ ms) : (ms.find? fun m' => m'.name == m.name) = some m := by
  induction ms with
  | nil => cases hm
  | cons a ms ih =>
    rw [List.map_cons, List.nodup_cons] at hnodup
    rcases List.mem_cons.mp hm with rfl | hm
    · simp
    · have hne : (a.name == m.name) = false := by
        rw [beq_eq_false_iff_ne]
        intro h
        exact hnodup.1 (h ▸ List.mem_map_of_mem hm)
      rw [List.find?_cons, hne]
      exact ih hnodup.2 hm

theorem loadMembers_json {ms : List (Member S)} (hnodup : (ms.map Member.name).Nodup) (src : S)
    (sub : List (Member S)) : (∀ m ∈ sub, m ∈ ms) → ∀ s,
      loadMembers ms (sub.map fun m => (m.name, m.json src)) s =
        some (sub.foldl (fun s m => m.copy src s) s) := by
  induction sub with
  | nil => intro _ s; rfl
  | cons m sub ih =>
    intro hsub s
    rw [List.forall_mem_cons] at hsub
    rw [List.map_cons, loadMembers, find?_name hnodup hsub.1]
    simp only [Member.load_json, Option.bind_some, List.foldl_cons]
    exact ih hsub.2 _

/-- What was written is read back field by field. -/
theorem readStruct_writeStruct {ms : List (Member S)} (hnodup : (ms.map Member.name).Nodup)
    (zero s : S) : readStruct ms zero (writeStruct ms s) =
      some (ms.foldl (fun s' m => m.copy s s') zero) :=
  loadMembers_json hnodup s ms (fun _ h => h) zero

/-- A slice. An empty one is written as null when it is nil. -/
def sliceJson (isNil : Bool) (write : S → Json) (ss : List S) : Json :=
  if ss.isEmpty && isNil then null else arr (ss.map write)

def readSlice (read : Json → Option S) : Json → Option (List S)
  | null => some []
  | arr vs => vs.mapM read
  | _ => none

theorem readSlice_sliceJson {read : Json → Option S} {write : S → Json} {ss : List S}
    (h : ∀ s ∈ ss, read (write s) = some s) (isNil : Bool) :
    readSlice read (sliceJson isNil write ss) = some ss := by
  have hmap : (ss.map write).mapM read = some ss := by
    induction ss with
    | nil => rfl
    | cons s ss ih =>
      rw [List.forall_mem_cons] at h
      rw [List.map_cons, List.mapM_cons, h.1, ih h.2]
      rfl
  unfold sliceJson
  split
  · next hnil =>
    rw [Bool.and_eq_true, List.isEmpty_iff] at hnil
    rw [hnil.1]
    rfl
  · exact hmap

end Members

end Json

end Doodle.Go
