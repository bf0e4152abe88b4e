/-
  Which argument types have a document: `newField` and `method.parse` of `service/document.go` over
  the types of a program, which may refer to themselves.

  The types are a finite graph (`Types`): each has a kind and the types it is made of. The recursion
  follows one pointer and then one slice to a struct, and goes into every field of it; only `parse`
  leaves out fields of the type `service.RequestHeader`, so only at the top level. The functions
  here have the depth of nested calls as fuel.

  * `parse_tree`: where `parse` returns, the result is that of `Document.parse` on the type unfolded
    to a tree.
  * `terminates_iff`: `parse` returns exactly when no type that the recursion comes to is followed
    back to itself.
-/
import Doodle.Lib.Descent
import Doodle.Service.Document

namespace Doodle.Service.Document

open Doodle.Lib Relation

/-! ## Types that refer to one another -/

/-- `reflect.StructField`, with its type by reference. -/
structure FieldDecl (T : Type) where
  name : String
  exported : Bool
  anonymous : Bool
  tag : Tag
  type : T

/-- `Kind` and `Elem` or the fields; `other` is a kind that is none of the four. -/
inductive Shape (T : Type) where
  | ptr (elem : T)
  | slice (elem : T)
  | array (elem : T)
  | struct (fields : List (FieldDecl T))
  | other

/-- The types of a program. -/
structure Types where
  size : Nat
  text : Fin size → String
  shape : Fin size → Shape (Fin size)

namespace Types

variable (P : Types)

/-- `if st.Kind() == reflect.Ptr { st = st.Elem() }` -/
def deref (t : Fin P.size) : Fin P.size :=
  match P.shape t with
  | .ptr elem => elem
  | _ => t

/-- `if st.Kind() == reflect.Slice { st = st.Elem() }` -/
def unslice (t : Fin P.size) : Fin P.size :=
  match P.shape t with
  | .slice elem => elem
  | _ => t

/-- The fields of a struct. -/
def fieldsOf (t : Fin P.size) : Option (List (FieldDecl (Fin P.size))) :=
  match P.shape t with
  | .struct fields => some fields
  | _ => none

/-- The fields that `newField` goes into. -/
def followed (t : Fin P.size) : Option (List (FieldDecl (Fin P.size))) :=
  P.fieldsOf (P.unslice (P.deref t))

/-- The loop of `newField`, with `f.Child` so far; `none` when a call runs out of fuel. -/
def newFields (call : FieldDecl (Fin P.size) → Option Field) :
    Option FieldMap → List (FieldDecl (Fin P.size)) → Option (Option FieldMap)
  | child, [] => some child
  | child, sf :: sfs =>
    match call sf with
    | none => none
    | some f => newFields call (some (put sf.name f (child.getD []))) sfs

/-- `newField` with so many nested calls. -/
def newField : Nat → FieldDecl (Fin P.size) → Option Field
  | 0, _ => none
  | fuel + 1, sf =>
    let child := match P.followed sf.type with
      | none => some none
      | some fields => P.newFields (newField fuel) none fields
    child.map fun child => .mk (docName sf.name sf.tag) (P.text sf.type)
      (sf.tag.required == "true") sf.tag.comment sf.anonymous child

/-- The loop of `parse`. -/
def parseFields (fuel : Nat) : List (FieldDecl (Fin P.size)) → FieldMap → Option FieldMap
  | [], fm => some fm
  | sf :: sfs, fm =>
    if P.text sf.type = "service.RequestHeader" then parseFields fuel sfs fm
    else
      match P.newField fuel sf with
      | none => none
      | some f => parseFields fuel sfs (put sf.name f fm)

/-- `method.parse`; the inner `none` is a panic of `NumField`. -/
def parse (fuel : Nat) (arg : Fin P.size) (fm : FieldMap) : Option (Option FieldMap) :=
  match P.fieldsOf (P.deref arg) with
  | none => some none
  | some fields => (P.parseFields fuel fields fm).map some

/-- With enough fuel `parse` returns. -/
def Terminates (arg : Fin P.size) : Prop := ∀ fm, ∃ fuel, (P.parse fuel arg fm).isSome

/-! ## Unfolding a type -/

/-- The type as a tree down to a depth, below which its parts are left as they are called. -/
def tree : Nat → Fin P.size → GoType
  | 0, t => .other (P.text t)
  | depth + 1, t =>
    match P.shape t with
    | .ptr elem => .ptr (P.text t) (tree depth elem)
    | .slice elem => .slice (P.text t) (tree depth elem)
    | .array elem => .array (P.text t) (tree depth elem)
    | .struct fields => .struct (P.text t) (fields.map fun sf =>
        .mk sf.name sf.exported sf.anonymous sf.tag (tree depth sf.type))
    | .other => .other (P.text t)

/-- A field with its type unfolded. -/
def treeField (depth : Nat) (sf : FieldDecl (Fin P.size)) : StructField :=
  .mk sf.name sf.exported sf.anonymous sf.tag (P.tree depth sf.type)

theorem text_tree (depth : Nat) (t : Fin P.size) : (P.tree depth t).text = P.text t := by
  cases depth with
  | zero => rfl
  | succ depth =>
    unfold tree
    cases P.shape t <;> rfl

/-- One call goes through at most a pointer, a slice and a struct of the tree. -/
theorem followed_tree (depth : Nat) (t : Fin P.size) : ∃ below, depth ≤ below ∧
    Document.followed (P.tree (depth + 3) t) =
      ((P.followed t).getD []).map (P.treeField below) := by
  unfold followed deref
  cases hs : P.shape t with
  | ptr e =>
    cases he : P.shape e with
    | slice e' =>
      refine ⟨depth, Nat.le_refl _, ?_⟩
      cases he' : P.shape e' <;>
        simp only [unslice, fieldsOf, tree, Document.followed, hs, he, he'] <;> rfl
    | _ =>
      refine ⟨depth + 1, by omega, ?_⟩
      simp only [unslice, fieldsOf, tree, Document.followed, hs, he]
      rfl
  | slice e =>
    refine ⟨depth + 1, by omega, ?_⟩
    cases he : P.shape e <;>
      simp only [unslice, fieldsOf, tree, Document.followed, hs, he] <;> rfl
  | _ =>
    refine ⟨depth + 2, by omega, ?_⟩
    simp only [unslice, fieldsOf, tree, Document.followed, hs]
    rfl

theorem newFields_tree {call : FieldDecl (Fin P.size) → Option Field} {depth : Nat}
    (hcall : ∀ sf f, call sf = some f → Document.newField (P.treeField depth sf) = f)
    {fields : List (FieldDecl (Fin P.size))} {child child' : Option FieldMap}
    (h : P.newFields call child fields = some child') :
    Document.newFields child (fields.map (P.treeField depth)) = child' := by
  induction fields generalizing child with
  | nil => exact Option.some.inj h
  | cons sf sfs ih =>
    rw [newFields] at h
    cases hf : call sf with
    | none =>
      rw [hf] at h
      cases h
    | some f =>
      rw [hf] at h
      have hnew := ih h
      rw [← hcall sf f hf] at hnew
      exact hnew

theorem newField_tree {fuel depth : Nat} (hle : 3 * fuel ≤ depth) {sf : FieldDecl (Fin P.size)}
    {f : Field} (h : P.newField fuel sf = some f) :
    Document.newField (P.treeField depth sf) = f := by
  induction fuel generalizing depth sf f with
  | zero => cases h
  | succ fuel ih =>
    obtain ⟨depth, rfl⟩ : ∃ d, depth = d + 3 := ⟨depth - 3, by omega⟩
    obtain ⟨child, hchild, rfl⟩ := Option.map_eq_some_iff.mp h
    have hsame : childOf (P.tree (depth + 3) sf.type) = child := by
      obtain ⟨below, hbelow, hfields⟩ := P.followed_tree depth sf.type
      rw [childOf_eq, hfields]
      cases hf : P.followed sf.type with
      | none =>
        rw [hf] at hchild
        exact Option.some.inj hchild
      | some fields =>
        rw [hf] at hchild
        exact P.newFields_tree (fun sf f hf => ih (by omega) hf) hchild
    rw [treeField, Document.newField, text_tree, hsame]

theorem parseFields_tree {fuel depth : Nat} (hle : 3 * fuel ≤ depth)
    {fields : List (FieldDecl (Fin P.size))} {fm fm' : FieldMap}
    (h : P.parseFields fuel fields fm = some fm') :
    Document.parseFields (fields.map (P.treeField depth)) fm = fm' := by
  induction fields generalizing fm with
  | nil => exact Option.some.inj h
  | cons sf sfs ih =>
    have htext : (P.treeField depth sf).type.text = P.text sf.type := P.text_tree depth sf.type
    rw [List.map_cons, Document.parseFields, htext]
    rw [parseFields] at h
    by_cases hheader : P.text sf.type = "service.RequestHeader"
    · rw [if_pos hheader] at h ⊢
      exact ih h
    · rw [if_neg hheader] at h ⊢
      cases hf : P.newField fuel sf with
      | none =>
        rw [hf] at h
        cases h
      | some f =>
        rw [hf] at h
        rw [P.newField_tree hle hf]
        exact ih h

/-- What `parse` makes of a type is what it makes of the tree, to any depth that it does not see
    the end of. -/
theorem parse_tree {fuel depth : Nat} (hle : 3 * fuel + 2 ≤ depth) {arg : Fin P.size}
    {fm : FieldMap} {result : Option FieldMap} (h : P.parse fuel arg fm = some result) :
    Document.parse (P.tree depth arg) fm = result := by
  obtain ⟨depth, rfl⟩ : ∃ d, depth = d + 2 := ⟨depth - 2, by omega⟩
  have hparse : ∀ below fields, depth ≤ below →
      (P.parseFields fuel fields fm).map some = some result →
      some (Document.parseFields (fields.map (P.treeField below)) fm) = result := by
    intro below fields hbelow h
    obtain ⟨fm', hfm, rfl⟩ := Option.map_eq_some_iff.mp h
    rw [P.parseFields_tree (by omega) hfm]
  unfold parse at h
  cases hs : P.shape arg with
  | ptr e =>
    cases he : P.shape e with
    | struct fields =>
      simp only [deref, fieldsOf, hs, he] at h
      simp only [tree, hs, he, Document.parse]
      exact hparse depth fields (Nat.le_refl _) h
    | _ =>
      simp only [deref, fieldsOf, hs, he, Option.some.injEq] at h
      simpa only [tree, hs, he, Document.parse] using h
  | struct fields =>
    simp only [deref, fieldsOf, hs] at h
    simp only [tree, hs, Document.parse]
    exact hparse (depth + 1) fields (by omega) h
  | _ =>
    simp only [deref, fieldsOf, hs, Option.some.injEq] at h
    simpa only [tree, hs, Document.parse] using h

/-! ## When the recursion ends -/

/-- A call of `newField` for a field of type `t` leads to one for a field of type `u`. -/
def Follows (t u : Fin P.size) : Prop :=
  ∃ fields, P.followed t = some fields ∧ ∃ sf ∈ fields, sf.type = u

/-- A loop returns when all its calls do. -/
theorem isSome_newFields_iff {call : FieldDecl (Fin P.size) → Option Field}
    {fields : List (FieldDecl (Fin P.size))} {child : Option FieldMap} :
    (P.newFields call child fields).isSome ↔ ∀ sf ∈ fields, (call sf).isSome := by
  induction fields generalizing child with
  | nil => simp [newFields]
  | cons sf sfs ih =>
    rw [newFields, List.forall_mem_cons]
    cases call sf with
    | none => simp
    | some f => simpa using ih

/-- `newField` needs one level of calls more than there are steps to follow. -/
theorem isSome_newField_iff {fuel : Nat} {sf : FieldDecl (Fin P.size)} :
    (P.newField fuel sf).isSome ↔ ¬ Descends P.Follows fuel sf.type := by
  induction fuel generalizing sf with
  | zero => simp [newField, Descends]
  | succ fuel ih =>
    rw [newField, Option.isSome_map, Descends]
    cases hf : P.followed sf.type with
    | none => simp [Follows, hf]
    | some fields => simp [Follows, hf, isSome_newFields_iff, ih]

/-- The fields that `parse` calls `newField` for. -/
def parsed (arg : Fin P.size) : List (FieldDecl (Fin P.size)) :=
  ((P.fieldsOf (P.deref arg)).getD []).filter fun sf => P.text sf.type ≠ "service.RequestHeader"

theorem isSome_parseFields_iff {fuel : Nat} {fields : List (FieldDecl (Fin P.size))}
    {fm : FieldMap} : (P.parseFields fuel fields fm).isSome ↔
      ∀ sf ∈ fields, P.text sf.type ≠ "service.RequestHeader" → (P.newField fuel sf).isSome := by
  induction fields generalizing fm with
  | nil => simp [parseFields]
  | cons sf sfs ih =>
    rw [parseFields, List.forall_mem_cons]
    by_cases hheader : P.text sf.type = "service.RequestHeader"
    · simpa [hheader] using ih
    · rw [if_neg hheader]
      cases P.newField fuel sf with
      | none => simp [hheader]
      | some f => simpa [hheader] using ih

theorem isSome_parse_iff {fuel : Nat} {arg : Fin P.size} {fm : FieldMap} :
    (P.parse fuel arg fm).isSome ↔ ∀ sf ∈ P.parsed arg, ¬ Descends P.Follows fuel sf.type := by
  unfold parse parsed
  cases P.fieldsOf (P.deref arg) with
  | none => simp
  | some fields => simp [isSome_parseFields_iff, isSome_newField_iff]

theorem not_terminates_of_cycle {arg : Fin P.size} {sf : FieldDecl (Fin P.size)}
    (hsf : sf ∈ P.parsed arg) {t : Fin P.size} (hreach : ReflTransGen P.Follows sf.type t)
    (hcycle : TransGen P.Follows t t) : ¬ P.Terminates arg := by
  intro h
  obtain ⟨fuel, hfuel⟩ := h []
  exact P.isSome_parse_iff.mp hfuel sf hsf (descends_of_cycle P.Follows hcycle fuel sf.type hreach)

/-- `parse` returns exactly when it comes to no type that is followed back to itself. -/
theorem terminates_iff (arg : Fin P.size) : P.Terminates arg ↔ ∀ sf ∈ P.parsed arg, ∀ t,
    ReflTransGen P.Follows sf.type t → ¬ TransGen P.Follows t t := by
  constructor
  · exact fun h sf hsf t hreach hcycle => P.not_terminates_of_cycle hsf hreach hcycle h
  · intro h fm
    -- without a cycle no descent is longer than there are types
    refine ⟨Fintype.card (Fin P.size), P.isSome_parse_iff.mpr fun sf hsf hdesc => ?_⟩
    obtain ⟨t, hreach, hcycle⟩ := exists_cycle P.Follows hdesc
    exact h sf hsf t hreach hcycle

end Types

/-- `type Node struct { Next *Node }` -/
def nodeTypes : Types where
  size := 2
  text t := ["main.Node", "*main.Node"].get t
  shape t := [.struct [⟨"Next", true, false, ⟨"", "", ""⟩, 1⟩], .ptr 0].get t

/-- `type Req struct { Inner Inner }` and `type Inner struct { service.RequestHeader }`, and of the
    fields of `http.Request` and `http.Response` those that refer to the other. -/
def headerTypes : Types where
  size := 8
  text t := ["main.Req", "main.Inner", "service.RequestHeader", "string", "http.Request",
    "*http.Response", "http.Response", "*http.Request"].get t
  shape t :=
    [.struct [⟨"Inner", true, false, ⟨"", "", ""⟩, 1⟩],
     .struct [⟨"RequestHeader", true, true, ⟨"", "", ""⟩, 2⟩],
     .struct [⟨"Session", true, false, ⟨"", "", ""⟩, 3⟩,
       ⟨"Request", true, false, ⟨"", "", ""⟩, 4⟩],
     .other,
     .struct [⟨"Response", true, false, ⟨"", "", ""⟩, 5⟩],
     .ptr 6,
     .struct [⟨"Request", true, false, ⟨"", "", ""⟩, 7⟩],
     .ptr 4].get t

/-- A list node never gets a document, nor does a request with the header a level down. -/
theorem recursive_types_do_not_terminate :
    ¬ nodeTypes.Terminates (0 : Fin 2) ∧ ¬ headerTypes.Terminates (0 : Fin 8) := by
  constructor
  · have hstep : nodeTypes.Follows (1 : Fin 2) (1 : Fin 2) :=
      ⟨_, rfl, _, List.mem_cons_self, rfl⟩
    exact nodeTypes.not_terminates_of_cycle List.mem_cons_self .refl (.single hstep)
  · have hinner : headerTypes.Follows (1 : Fin 8) (2 : Fin 8) :=
      ⟨_, rfl, _, List.mem_cons_self, rfl⟩
    have hheader : headerTypes.Follows (2 : Fin 8) (4 : Fin 8) :=
      ⟨_, rfl, _, List.mem_cons_of_mem _ List.mem_cons_self, rfl⟩
    have hrequest : headerTypes.Follows (4 : Fin 8) (5 : Fin 8) :=
      ⟨_, rfl, _, List.mem_cons_self, rfl⟩
    have hresponse : headerTypes.Follows (5 : Fin 8) (7 : Fin 8) :=
      ⟨_, rfl, _, List.mem_cons_self, rfl⟩
    have hback : headerTypes.Follows (7 : Fin 8) (5 : Fin 8) :=
      ⟨_, rfl, _, List.mem_cons_self, rfl⟩
    exact headerTypes.not_terminates_of_cycle List.mem_cons_self
      (((ReflTransGen.single hinner).tail hheader).tail hrequest) (.tail (.single hresponse) hback)

end Doodle.Service.Document
