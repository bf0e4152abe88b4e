/-
  `service/document.go`: the document a service makes of its methods' argument types.

  A Go type is a tree (`GoType`), so types that refer to themselves are left out; `newField` does
  not return on one (`Doodle.Service.Recursion`). A Go map with field names as keys is the list of
  its entries, of which no two have one key.

  `merge` ranges over maps that it changes on the way. Go leaves the order of a range open, and
  whether an entry added during it is visited. `Clear` is one such range, with any order and any
  choice; `Merge fm fm'` says that `merge` may leave `fm'` of `fm`.
-/
import Doodle.Go.Strings

namespace Doodle.Service.Document

open Doodle.Go

/-! ## Types -/

/-- What `Tag.Get` returns for the three keys of a struct tag that are read. -/
structure Tag where
  comment : String
  required : String
  json : String
  deriving DecidableEq, Repr

mutual

/-- `reflect.Type` by its kind, with the text that `String` returns. `other` is a type that is none
    of the four. -/
inductive GoType where
  | ptr (text : String) (elem : GoType)
  | slice (text : String) (elem : GoType)
  | array (text : String) (elem : GoType)
  | struct (text : String) (fields : List StructField)
  | other (text : String)

/-- `reflect.StructField`; it is exported when its `PkgPath` is empty. -/
inductive StructField where
  | mk (name : String) (exported anonymous : Bool) (tag : Tag) (type : GoType)

end

/-- `Type.String()` -/
def GoType.text : GoType → String
  | .ptr text _ => text
  | .slice text _ => text
  | .array text _ => text
  | .struct text _ => text
  | .other text => text

namespace StructField

def name : StructField → String
  | .mk name _ _ _ _ => name

def exported : StructField → Bool
  | .mk _ exported _ _ _ => exported

def anonymous : StructField → Bool
  | .mk _ _ anonymous _ _ => anonymous

def tag : StructField → Tag
  | .mk _ _ _ tag _ => tag

def type : StructField → GoType
  | .mk _ _ _ _ type => type

end StructField

/-! ## Fields -/

/-- `field` -/
inductive Field where
  | mk (name type : String) (required : Bool) (comment : String) (anonymous : Bool)
    (child : Option (List (String × Field)))

namespace Field

def name : Field → String
  | .mk name _ _ _ _ _ => name

def anonymous : Field → Bool
  | .mk _ _ _ _ anonymous _ => anonymous

def child : Field → Option (List (String × Field))
  | .mk _ _ _ _ _ child => child

def withChild : Field → List (String × Field) → Field
  | .mk name type required comment anonymous _, child =>
    .mk name type required comment anonymous (some child)

end Field

/-- `map[string]*field` -/
abbrev FieldMap := List (String × Field)

def keys (fm : FieldMap) : List String := fm.map Prod.fst

/-- `fm[k] = f` -/
def put (k : String) (f : Field) : FieldMap → FieldMap
  | [] => [(k, f)]
  | (k', f') :: fm => if k' = k then (k, f) :: fm else (k', f') :: put k f fm

/-- `for fk, fv := range m { fm[fk] = fv }`; the keys of `m` are distinct, so the order is left
    out. -/
def putAll (m fm : FieldMap) : FieldMap := m.foldl (fun fm e => put e.1 e.2 fm) fm

/-- `delete(fm, k)` -/
def del (k : String) (fm : FieldMap) : FieldMap := fm.filter fun e => e.1 ≠ k

/-- `n := strings.Split(sf.Tag.Get("json"), ",")[0]`, or the field's name when `n` is empty. -/
def docName (name : String) (tag : Tag) : String :=
  match (split tag.json ',').head? with
  | some n => if n = "" then name else n
  | none => name

mutual

def newField : StructField → Field
  | .mk name _ anonymous tag type =>
    .mk (docName name tag) type.text (tag.required == "true") tag.comment anonymous (childOf type)

/-- `f.Child` for a field of the type: one pointer is followed, then one slice. -/
def childOf : GoType → Option FieldMap
  | .struct _ fields => newFields none fields
  | .ptr _ (.struct _ fields) => newFields none fields
  | .slice _ (.struct _ fields) => newFields none fields
  | .ptr _ (.slice _ (.struct _ fields)) => newFields none fields
  | _ => none

/-- The loop over the fields of a struct, with `f.Child` so far. -/
def newFields (child : Option FieldMap) : List StructField → Option FieldMap
  | [] => child
  | .mk name exported anonymous tag type :: sfs =>
    newFields (some (put name (newField (.mk name exported anonymous tag type)) (child.getD [])))
      sfs

end

/-- The fields that `newField` documents below a field of the type: those of a struct, perhaps
    behind a pointer and in a slice. -/
def followed : GoType → List StructField
  | .struct _ fs => fs
  | .ptr _ (.struct _ fs) => fs
  | .slice _ (.struct _ fs) => fs
  | .ptr _ (.slice _ (.struct _ fs)) => fs
  | _ => []

theorem childOf_eq (t : GoType) : childOf t = newFields none (followed t) := by
  fun_cases followed t <;> simp_all [childOf, newFields]

/-- The loop of `parse`. -/
def parseFields : List StructField → FieldMap → FieldMap
  | [], fm => fm
  | sf :: sfs, fm =>
    parseFields sfs
      (if sf.type.text = "service.RequestHeader" then fm else put sf.name (newField sf) fm)

/-- `method.parse`; `none` when `NumField` panics. -/
def parse : GoType → FieldMap → Option FieldMap
  | .struct _ fields, fm => some (parseFields fields fm)
  | .ptr _ (.struct _ fields), fm => some (parseFields fields fm)
  | _, _ => none

/-! ## Merging -/

/-- The range that removes the anonymous entries, with the keys it has still to visit and the flag
    `ok`. Of the keys that an entry's children bring in, any may be visited too. -/
inductive Clear : List String → FieldMap → Bool → FieldMap → Bool → Prop
  | done {todo fm ok} : (∀ k ∈ todo, fm.lookup k = none) → Clear todo fm ok fm ok
  | keep {todo fm ok fm' ok' k f} : k ∈ todo → fm.lookup k = some f → f.anonymous = false →
      Clear (todo.erase k) fm ok fm' ok' → Clear todo fm ok fm' ok'
  | promote {todo fm ok fm' ok' k f new} : k ∈ todo → fm.lookup k = some f →
      f.anonymous = true → new.Nodup →
      (∀ key ∈ new, key ∈ keys (f.child.getD []) ∧ (del k fm).lookup key = none) →
      Clear (todo.erase k ++ new) (putAll (f.child.getD []) (del k fm)) true fm' ok' →
      Clear todo fm ok fm' ok'

mutual

/-- `method.merge`: another round as long as one has removed an entry. -/
inductive Merge : FieldMap → FieldMap → Prop
  | stop {fm fm₁ fm₂} : Clear (keys fm) fm false fm₁ false → MergeAll fm₁ fm₂ → Merge fm fm₂
  | again {fm fm₁ fm₂ fm₃} : Clear (keys fm) fm false fm₁ true → MergeAll fm₁ fm₂ →
      Merge fm₂ fm₃ → Merge fm fm₃

/-- The range that merges the maps of the children, each on its own. -/
inductive MergeAll : FieldMap → FieldMap → Prop
  | nil : MergeAll [] []
  | leaf {k f fm fm'} : f.child = none → MergeAll fm fm' → MergeAll ((k, f) :: fm) ((k, f) :: fm')
  | inner {k f c c' fm fm'} : f.child = some c → Merge c c' → MergeAll fm fm' →
      MergeAll ((k, f) :: fm) ((k, f.withChild c') :: fm')

end

/-- What `parse` and `merge` may make of an argument type on top of `fm`. -/
def Describes (arg : GoType) (fm fm' : FieldMap) : Prop :=
  ∃ parsed, parse arg fm = some parsed ∧ Merge parsed fm'

/-! ## The document -/

/-- The methods that are served. -/
inductive Verb where
  | get | post | put | delete
  deriving DecidableEq, Repr

/-- The name of the Go method. -/
def Verb.name : Verb → String
  | .get => "Get"
  | .post => "Post"
  | .put => "Put"
  | .delete => "Delete"

/-- `method` -/
structure Method where
  comment : String
  request : FieldMap
  response : FieldMap

/-- `module` -/
structure Module where
  url : String
  methods : Verb → Option Method

/-- `document` -/
abbrev Modules := String → Option Module

/-- `reflect.Method`, of its type the number of inputs (the receiver is the first) and the second
    and third. -/
structure GoMethod where
  numIn : Nat
  in1 : GoType
  in2 : GoType

/-- What the build puts into the program: `debug.Project`, and `docExport` with `""` for a key that
    is not there. -/
structure Build where
  project : String
  docExport : String → String

/-- `getExportComment`; `url` ends with a slash, `name` and a slash. -/
def getExportComment (b : Build) (name url : String) (v : Verb) : String :=
  b.docExport
    (b.project ++ sliceTo url (url.length - name.length - 2) ++ "." ++ name ++ "." ++ v.name)

/-- The module that `add` works on. -/
def moduleFor (d : Modules) (name url : String) : Module :=
  (d name).getD ⟨url, fun _ => none⟩

/-- The method that `add` works on. -/
def methodFor (b : Build) (md : Module) (name url : String) (v : Verb) : Method :=
  (md.methods v).getD ⟨getExportComment b name url v, [], []⟩

/-- `md.Methods[v] = m` -/
def Module.setMethod (md : Module) (v : Verb) (m : Method) : Module :=
  ⟨md.url, fun u => if u = v then some m else md.methods u⟩

/-- `document.add` may turn `d` into `d'`. -/
def Adds (b : Build) (name url : String) (v : Verb) (rm : GoMethod) (d d' : Modules) : Prop :=
  let md := moduleFor d name url
  let m := methodFor b md name url v
  ∃ request response, Describes rm.in1 m.request request ∧ Describes rm.in2 m.response response ∧
    d' = fun n => if n = name then some (md.setMethod v ⟨m.comment, request, response⟩) else d n

end Doodle.Service.Document
