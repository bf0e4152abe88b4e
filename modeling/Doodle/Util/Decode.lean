/-
  `DecodeRequestValue` of `util/utils.go`: a request's form into the fields of a struct.

  The source walks the struct by reflection. Here a struct type `S` comes with the list of its
  fields, each with its key (the json tag, or the field's name when there is none), its `valid`
  tag and how it is read and set. A string field is always set; an integer field whose value does not
  parse is left as it was when it has no `valid` tag, and is an error when it has one.
-/
import Doodle.Go.Result
import Doodle.Go.Strconv

namespace Doodle.Util

open Doodle.Go

/-- What `DecodeRequestValue` reads of a request: the error of `ParseForm`, if any, and the
    values of the form. -/
structure Request where
  formErr : Option String
  form : List (String × String)

/-- `FormValue`: the first value of the key, or the empty string. -/
def Request.formValue (q : Request) (key : String) : String :=
  ((q.form.find? fun kv => kv.1 == key).map Prod.snd).getD ""

/-- The integer a key holds, if it parses. -/
def Request.int? (q : Request) (key : String) : Option Int := parseInt (q.formValue key)

variable {S : Type}

/-- The kinds of fields `DecodeRequestValue` sets. -/
inductive Kind (S : Type) where
  | int (get : S → Int) (set : Int → S → S)
  | str (set : String → S → S)

/-- A field of a struct. -/
structure Field (S : Type) where
  key : String
  valid : String
  kind : Kind S

def decodeField (q : Request) (f : Field S) (s : S) : Option String × S :=
  match f.kind with
  | .int _ set =>
    match q.int? f.key with
    | some v => (none, set v s)
    | none =>
      if f.valid = "" then (none, s)
      else (some ("key:" ++ f.key ++ " value:" ++ q.formValue f.key ++ " format error"), s)
  | .str set => (none, set (q.formValue f.key) s)

/-- The fields in order, up to the first error. -/
def decodeFields (q : Request) : List (Field S) → S → Option String × S
  | [], s => (none, s)
  | f :: fs, s =>
    match decodeField q f s with
    | (none, s) => decodeFields q fs s
    | (some e, s) => (some e, s)

/-- `DecodeRequestValue`, with the struct's `valid` rules. -/
def decodeRequestValue (fields : List (Field S)) (valid : S → Option String) (q : Request) (s : S) :
    Option String × S :=
  match q.formErr with
  | some e => (some e, s)
  | none =>
    match decodeFields q fields s with
    | (some e, s) => (some e, s)
    | (none, s) => (valid s, s)

/-- `DecodeRequestValue` of a struct passed by value. Its fields cannot be set: the first one that
    would be is a panic, and the struct stays as it was. -/
def decodeValue (fields : List (Field S)) (q : Request) : Res String Unit :=
  match q.formErr with
  | some e => .err e
  | none => go fields
where
  go : List (Field S) → Res String Unit
    | [] => .ok ()
    | f :: fs =>
      match f.kind with
      | .int _ _ =>
        match q.int? f.key with
        | some _ => .panic "reflect: reflect.Value.SetInt using unaddressable value"
        | none =>
          if f.valid = "" then go fs
          else .err ("key:" ++ f.key ++ " value:" ++ q.formValue f.key ++ " format error")
      | .str _ => .panic "reflect: reflect.Value.SetString using unaddressable value"

/-- A field without a `valid` tag that is read as it was set. -/
def Field.Plain (f : Field S) : Prop :=
  f.valid = "" ∧ match f.kind with
    | .int get set => ∀ s, set (get s) s = s
    | .str _ => True

/-- What decoding does to such a field: an integer that does not parse is put back. -/
def Field.put (q : Request) (f : Field S) (s : S) : S :=
  match f.kind with
  | .int get set => set ((q.int? f.key).getD (get s)) s
  | .str set => set (q.formValue f.key) s

theorem decodeField_plain (q : Request) (f : Field S) (hf : f.Plain) (s : S) :
    decodeField q f s = (none, f.put q s) := by
  obtain ⟨key, valid, kind⟩ := f
  obtain ⟨rfl, hk⟩ := hf
  cases kind with
  | int get set =>
    have hback : set (get s) s = s := hk s
    simp only [decodeField, Field.put, if_true]
    cases q.int? key with
    | some v => rfl
    | none => rw [Option.getD_none, hback]
  | str set => rfl

/-- Decoding a struct of such fields sets them one after another. -/
theorem decodeFields_plain (q : Request) (fs : List (Field S)) :
    (∀ f ∈ fs, f.Plain) → ∀ s, decodeFields q fs s = (none, fs.foldl (fun s f => f.put q s) s) := by
  induction fs with
  | nil => intro _ s; rfl
  | cons f fs ih =>
    intro hf s
    simp only [decodeFields, decodeField_plain q f (hf f List.mem_cons_self),
      ih fun g hg => hf g (List.mem_cons_of_mem _ hg), List.foldl_cons]

end Doodle.Util
