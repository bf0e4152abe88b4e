/-
  `meta/document`: the description of an interface's parameters, and its JSON form.

  A Go map is the list of its entries in the order of their keys, in which `encoding/json` writes
  them; a nil map is `none`. The keys of a map are distinct at every depth (`Distinct`), which a
  `Method` carries. `readMethod_json`: reading back what was written gives the whole tree again.
-/
import Doodle.Go.Json

namespace Doodle.Meta.Document

open Doodle.Go

/-- `document.Field`. -/
inductive Field where
  | mk (name type : String) (required : Bool) (comment : String)
    (child : Option (List (String × Field)))

mutual

/-- The keys of every map inside the field are distinct. -/
def Field.Distinct : Field → Prop
  | .mk _ _ _ _ none => True
  | .mk _ _ _ _ (some fs) => Distinct fs

/-- The keys of the map, and of every map inside it, are distinct. -/
def Distinct : List (String × Field) → Prop
  | [] => True
  | (k, f) :: fs => (∀ p ∈ fs, p.1 ≠ k) ∧ f.Distinct ∧ Distinct fs

end

/-- `document.Method`. -/
structure Method where
  comment : String
  request : Option (List (String × Field))
  response : Option (List (String × Field))
  request_distinct : ∀ fs, request = some fs → Distinct fs
  response_distinct : ∀ fs, response = some fs → Distinct fs

/-! ## Writing -/

mutual

def Field.json : Field → Json
  | .mk name type required comment none =>
    .obj [("Name", .str name), ("Type", .str type), ("Required", .bool required),
      ("Comment", .str comment), ("Child", .null)]
  | .mk name type required comment (some fs) =>
    .obj [("Name", .str name), ("Type", .str type), ("Required", .bool required),
      ("Comment", .str comment), ("Child", .obj (fieldMembers fs))]

def fieldMembers : List (String × Field) → List (String × Json)
  | [] => []
  | (k, f) :: fs => (k, f.json) :: fieldMembers fs

end

/-- A `map[string]Field`. -/
def mapJson : Option (List (String × Field)) → Json
  | none => .null
  | some fs => .obj (fieldMembers fs)

def Method.json (m : Method) : Json :=
  .obj [("Comment", .str m.comment), ("Request", mapJson m.request),
    ("Response", mapJson m.response)]

/-! ## Reading -/

mutual

/-- A `Field` from its JSON form. -/
def readField : Json → Option Field
  | .null => some (.mk "" "" false "" none)
  | .obj members => setMembers (.mk "" "" false "" none) members
  | _ => none

/-- Set the fields of a `Field` from the members of an object. -/
def setMembers : Field → List (String × Json) → Option Field
  | f, [] => some f
  | .mk name type required comment child, (key, v) :: members =>
    if key = "Name" then
      (Json.setStr name v).bind fun s => setMembers (.mk s type required comment child) members
    else if key = "Type" then
      (Json.setStr type v).bind fun s => setMembers (.mk name s required comment child) members
    else if key = "Required" then
      (Json.setBool required v).bind fun b => setMembers (.mk name type b comment child) members
    else if key = "Comment" then
      (Json.setStr comment v).bind fun s => setMembers (.mk name type required s child) members
    else if key = "Child" then
      (readMap v).bind fun fs => setMembers (.mk name type required comment fs) members
    else setMembers (.mk name type required comment child) members

/-- A `map[string]Field`. -/
def readMap : Json → Option (Option (List (String × Field)))
  | .null => some none
  | .obj members => (readEntries members).map some
  | _ => none

/-- The entries of a map; of two with one key the later stays. -/
def readEntries : List (String × Json) → Option (List (String × Field))
  | [] => some []
  | (key, v) :: members =>
    (readField v).bind fun f => (readEntries members).map fun fs =>
      if fs.any fun p => p.1 == key then fs else (key, f) :: fs

end

mutual

theorem readField_json : ∀ f : Field, f.Distinct → readField f.json = some f
  | .mk name type required comment none, _ => by
    simp [Field.json, readField, setMembers, Json.setStr, Json.setBool, readMap]
  | .mk name type required comment (some fs), h => by
    rw [Field.Distinct] at h
    simp [Field.json, readField, setMembers, Json.setStr, Json.setBool, readMap,
      readEntries_fieldMembers fs h]

theorem readEntries_fieldMembers : ∀ fs : List (String × Field), Distinct fs →
    readEntries (fieldMembers fs) = some fs
  | [], _ => by simp [fieldMembers, readEntries]
  | (key, f) :: fs, h => by
    obtain ⟨hkey, hf, hfs⟩ := h
    have hany : (fs.any fun p => p.1 == key) = false := by
      simpa using hkey
    simp [fieldMembers, readEntries, readField_json f hf, readEntries_fieldMembers fs hfs, hany]

end

theorem readMap_mapJson (fs : Option (List (String × Field)))
    (h : ∀ l, fs = some l → Distinct l) : readMap (mapJson fs) = some fs := by
  cases fs with
  | none => simp [mapJson, readMap]
  | some l => simp [mapJson, readMap, readEntries_fieldMembers l (h l rfl)]

/-- The parts of a `Method` as they are read. -/
structure Parts where
  comment : String
  request : Option (List (String × Field))
  response : Option (List (String × Field))

def Method.parts (m : Method) : Parts := ⟨m.comment, m.request, m.response⟩

/-- Set one field of a `Method`. -/
def Parts.set (m : Parts) (member : String × Json) : Option Parts :=
  if member.1 = "Comment" then
    (Json.setStr m.comment member.2).map fun s => { m with comment := s }
  else if member.1 = "Request" then (readMap member.2).map fun fs => { m with request := fs }
  else if member.1 = "Response" then (readMap member.2).map fun fs => { m with response := fs }
  else some m

/-- A `Method` from its JSON form. -/
def readMethod (old : Parts) : Json → Option Parts
  | .null => some old
  | .obj members => members.foldlM Parts.set old
  | _ => none

/-- Reading a method's JSON form gives its whole tree back. -/
theorem readMethod_json (old : Parts) (m : Method) : readMethod old m.json = some m.parts := by
  simp [Method.json, readMethod, Parts.set, Json.setStr, List.foldlM,
    readMap_mapJson _ m.request_distinct, readMap_mapJson _ m.response_distinct, Method.parts]

end Doodle.Meta.Document
