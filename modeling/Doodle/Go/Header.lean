/-
  Headers in `net/http` of Go 1.9: the canonical form of a name, which names and values the client
  refuses to send, and what it writes of a value. Texts have one character per byte.

  An alphanumeric name has an alphanumeric canonical form (`canonicalHeaderKey_alnum`), which can
  be that of another name: `abc` and `ABC` are one header.
-/
import Mathlib.Data.List.DropRight
import Mathlib.Tactic.Common

namespace Doodle.Go

/-- `httplex.IsTokenRune` -/
def isToken (c : Char) : Bool := c.isAlphanum || "!#$%&'*+-.^_`|~".toList.contains c

/-- The letters of a name; the first one and those after a dash are upper case. -/
def canonicalChars : Bool → List Char → List Char
  | _, [] => []
  | upper, c :: cs => (if upper then c.toUpper else c.toLower) :: canonicalChars (c == '-') cs

/-- `textproto.CanonicalMIMEHeaderKey` -/
def canonicalHeaderKey (name : String) : String :=
  if name.toList.all isToken then String.ofList (canonicalChars true name.toList) else name

/-- `httplex.ValidHeaderFieldName` -/
def validHeaderFieldName (name : String) : Bool := name ≠ "" && name.toList.all isToken

/-- `httplex.ValidHeaderFieldValue`: no control character but the tab. -/
def validHeaderFieldValue (v : String) : Bool :=
  v.toList.all fun c => c == '\t' || (32 ≤ c.toNat && c.toNat ≠ 127)

/-- `textproto.isASCIISpace` -/
def isASCIISpace (c : Char) : Bool := c == ' ' || c == '\t' || c == '\n' || c == '\r'

/-- `textproto.TrimString` -/
def trimString (v : String) : String :=
  String.ofList ((v.toList.dropWhile isASCIISpace).rdropWhile isASCIISpace)

/-- `reqWriteExcludeHeader`: the client writes these itself, or not at all. -/
def reqWriteExcludeHeader : List String :=
  ["Host", "User-Agent", "Content-Length", "Transfer-Encoding", "Trailer"]

example : canonicalHeaderKey "x-abc" = "X-Abc" := by decide

example : trimString " a b\t" = "a b" := by decide

theorem toNat_lt_of_isAlphanum {c : Char} (h : c.isAlphanum = true) : c.toNat < 128 := by
  have hupper : c.isUpper = true → c.toNat ≤ 90 := fun h => (of_decide_eq_true h).2
  have hlower : c.isLower = true → c.toNat ≤ 122 := fun h =>
    of_decide_eq_true (Bool.and_eq_true_iff.mp h).2
  have hdigit : c.isDigit = true → c.toNat ≤ 57 := fun h => (Char.isDigit_iff_toNat.mp h).2
  rcases Bool.or_eq_true_iff.mp h with h | h
  · rcases Bool.or_eq_true_iff.mp h with h | h
    · have := hupper h
      omega
    · have := hlower h
      omega
  · have := hdigit h
    omega

theorem isAlphanum_case {c : Char} (h : c.isAlphanum = true) :
    c.toUpper.isAlphanum = true ∧ c.toLower.isAlphanum = true := by
  have hall : ∀ n < 128, (Char.ofNat n).isAlphanum = true →
      (Char.ofNat n).toUpper.isAlphanum = true ∧ (Char.ofNat n).toLower.isAlphanum = true := by
    decide
  have hc := hall c.toNat (toNat_lt_of_isAlphanum h)
  rw [Char.ofNat_toNat] at hc
  exact hc h

theorem canonicalChars_alnum {cs : List Char} (h : ∀ c ∈ cs, c.isAlphanum = true) :
    ∀ upper, ∀ c ∈ canonicalChars upper cs, c.isAlphanum = true := by
  induction cs with
  | nil => intro upper c hc; cases hc
  | cons d cs ih =>
    rw [List.forall_mem_cons] at h
    intro upper c hc
    rcases List.mem_cons.mp hc with rfl | hc
    · cases upper with
      | true => exact (isAlphanum_case h.1).1
      | false => exact (isAlphanum_case h.1).2
    · exact ih h.2 _ c hc

theorem length_canonicalChars (upper : Bool) (cs : List Char) :
    (canonicalChars upper cs).length = cs.length := by
  induction cs generalizing upper with
  | nil => rfl
  | cons c cs ih => rw [canonicalChars, List.length_cons, ih, List.length_cons]

/-- The canonical form of an alphanumeric name. -/
theorem canonicalHeaderKey_alnum {name : String} (h : ∀ c ∈ name.toList, c.isAlphanum = true) :
    ∀ c ∈ (canonicalHeaderKey name).toList, c.isAlphanum = true := by
  have hall : name.toList.all isToken = true :=
    List.all_eq_true.mpr fun c hc => by simp [isToken, h c hc]
  rw [canonicalHeaderKey, if_pos hall, String.toList_ofList]
  exact canonicalChars_alnum h true

/-- The client takes every alphanumeric name but the empty one. -/
theorem validHeaderFieldName_alnum {name : String} (h : ∀ c ∈ name.toList, c.isAlphanum = true) :
    validHeaderFieldName (canonicalHeaderKey name) = true ↔ name ≠ "" := by
  have hkey := canonicalHeaderKey_alnum h
  have hall : name.toList.all isToken = true :=
    List.all_eq_true.mpr fun c hc => by simp [isToken, h c hc]
  have hkeyall : (canonicalHeaderKey name).toList.all isToken = true :=
    List.all_eq_true.mpr fun c hc => by simp [isToken, hkey c hc]
  have hempty : canonicalHeaderKey name = "" ↔ name = "" := by
    rw [canonicalHeaderKey, if_pos hall, ← String.toList_eq_nil_iff, String.toList_ofList,
      ← List.length_eq_zero_iff, length_canonicalChars, List.length_eq_zero_iff,
      String.toList_eq_nil_iff]
  rw [validHeaderFieldName, hkeyall, Bool.and_true, decide_eq_true_eq, ne_eq, hempty]

end Doodle.Go
