/-
  What a service's document says of a request, against what `encoding/json` reads of it.

  `Decodes` are the key paths that the decoder of `proxy` (`service/proxy.go`) fills, by the
  documented rules of `encoding/json`: tags, unexported fields, embedded structs, embedded types
  that are no structs, and which of several fields of one name is read. A pointer to a struct of an
  unexported type cannot be set when it is embedded. The keys of a map are data, and types with a
  decoder of their own are not meant. `alnum` is `unicode.IsLetter` or `unicode.IsDigit`.

  `DocPath` are the key paths of a map of fields, `Described` says that a request type's document
  has exactly the paths that are decoded, in every order in which `merge` may range over its maps.

  A level of a type are the fields that `merge` brings together in one map. Where two of them have
  one Go name, one is assigned to the other's key; in a `Consistent` type such fields document the
  same, so that nothing is lost with the one that has to go.

  * `described_iff`: the document of a consistent type is exact if and only if on every level the
    fields that are documented and those that are decoded have the same names.
-/
import Doodle.Service.Flatten
import Mathlib.Data.List.Dedup

namespace Doodle.Service.Document

open Doodle.Go

/-! ## `encoding/json` -/

/-- The name in a `json` tag. -/
def tagName (tag : Tag) : String := (split tag.json ',').head?.getD ""

section Json

variable (alnum : Char → Bool)

/-- `isValidTag` -/
def validTag (s : String) : Bool :=
  s ≠ "" && s.toList.all fun c =>
    alnum c || "!#$%&()*+-./:<=>?@[]^_\x7b|\x7d~ ".toList.contains c

/-- The name in the tag, when it can be used. -/
def jsonTag (tag : Tag) : String := if validTag alnum (tagName tag) then tagName tag else ""

def jsonName (name : String) (tag : Tag) : String :=
  if jsonTag alnum tag = "" then name else jsonTag alnum tag

/-- What the decoder makes of a field. -/
inductive Sight where
  | ignored | named | embedded
  deriving DecidableEq, Repr

def sight : StructField → Sight
  | .mk _ exported anonymous tag type =>
    if tag.json = "-" then .ignored
    else if anonymous then
      match type with
      | .struct _ _ => if jsonTag alnum tag = "" then .embedded else .named
      | .ptr _ (.struct _ _) =>
        if !exported then .ignored else if jsonTag alnum tag = "" then .embedded else .named
      | _ => if exported then .named else .ignored
    else if exported then .named else .ignored

/-- A field that the decoder may fill, and how deep it is embedded. -/
structure Candidate where
  depth : Nat
  tagged : Bool
  name : String
  type : GoType

mutual

def candidates (depth : Nat) : List StructField → List Candidate
  | [] => []
  | .mk name exported anonymous tag type :: fs =>
    (match sight alnum (.mk name exported anonymous tag type) with
      | .ignored => []
      | .named => [⟨depth, jsonTag alnum tag ≠ "", jsonName alnum name tag, type⟩]
      | .embedded => embeddedFields (depth + 1) type) ++ candidates depth fs

def embeddedFields (depth : Nat) : GoType → List Candidate
  | .struct _ fs => candidates depth fs
  | .ptr _ (.struct _ fs) => candidates depth fs
  | _ => []

end

/-- Of the fields of one name those that are embedded least, of these the tagged ones when there
    are any. -/
def considered (cs : List Candidate) (n : String) : List Candidate :=
  let same := cs.filter fun c => c.name == n
  let top := same.filter fun c => same.all fun c' => decide (c.depth ≤ c'.depth)
  if top.any fun c => c.tagged then top.filter fun c => c.tagged else top

/-- The fields that are filled: a name with several of them considered has none. -/
def jsonFields (fs : List StructField) : List Candidate :=
  ((candidates alnum 0 fs).map fun c => c.name).dedup.flatMap fun n =>
    match considered (candidates alnum 0 fs) n with
    | [c] => [c]
    | _ => []

end Json

/-- What is left of a type without pointers, slices and arrays. -/
def core : GoType → GoType
  | .ptr _ t => core t
  | .slice _ t => core t
  | .array _ t => core t
  | .struct text fs => .struct text fs
  | .other text => .other text

mutual

/-- The fields of a level: those of a struct and, for an embedded one, those of the struct that is
    followed. -/
def levelFields : List StructField → List StructField
  | [] => []
  | .mk name exported anonymous tag type :: fs =>
    (.mk name exported anonymous tag type :: if anonymous then embeddedLevel type else []) ++
      levelFields fs

def embeddedLevel : GoType → List StructField
  | .struct _ fs => levelFields fs
  | .ptr _ (.struct _ fs) => levelFields fs
  | .slice _ (.struct _ fs) => levelFields fs
  | .ptr _ (.slice _ (.struct _ fs)) => levelFields fs
  | _ => []

end

/-- The fields of a level that are documented: all but the embedded ones. -/
def docFields (fs : List StructField) : List StructField :=
  (levelFields fs).filter fun sf => !sf.anonymous

/-- The name a field is documented with. -/
def StructField.shown (sf : StructField) : String := docName sf.name sf.tag

/-- What stands below the documented fields of one name. -/
def belowFields (fs : List StructField) (n : String) : List StructField :=
  ((docFields fs).filter fun sf => sf.shown = n).flatMap fun sf => followed sf.type

/-- The key paths that the fields document. -/
inductive Documents : List StructField → List String → Prop
  | field {fs sf} : sf ∈ docFields fs → Documents fs [sf.shown]
  | inner {fs sf p} : sf ∈ docFields fs → Documents (followed sf.type) p →
      Documents fs (sf.shown :: p)

/-- The fields of a struct have different names, and what two of them bring to a level under one
    name documents the same; so do the structs below. -/
inductive Consistent : List StructField → Prop
  | intro {fs} (names : (fs.map StructField.name).Nodup)
      (alike : ∀ sf ∈ fs, ∀ sf' ∈ fs, sf.name ≠ sf'.name → ∀ x ∈ levelFields [sf],
        ∀ y ∈ levelFields [sf'], x.name = y.name → ∀ p, Documents [x] p ↔ Documents [y] p)
      (below : ∀ sf ∈ fs, Consistent (followed sf.type)) : Consistent fs

section Condition

variable (alnum : Char → Bool)

/-- The fields of a value of the type that are filled. -/
def filled (t : GoType) : List Candidate :=
  match core t with
  | .struct _ fs => jsonFields alnum fs
  | _ => []

/-- Every documented field has a name that is filled, and every filled name is documented. -/
def SameNames (fs : List StructField) (t : GoType) : Prop :=
  (∀ sf ∈ docFields fs, ∃ c ∈ filled alnum t, c.name = sf.shown) ∧
    ∀ c ∈ filled alnum t, ∃ sf ∈ docFields fs, sf.shown = c.name

instance (fs : List StructField) (t : GoType) : Decidable (SameNames alnum fs t) :=
  inferInstanceAs (Decidable (_ ∧ _))

/-- The same for what is below each name, down to the depth `n`. -/
def AgreesTo : Nat → List StructField → GoType → Prop
  | 0, fs, t => SameNames alnum fs t
  | n + 1, fs, t => SameNames alnum fs t ∧
      ∀ c ∈ filled alnum t, AgreesTo n (belowFields fs c.name) c.type

instance decidableAgreesTo : ∀ n fs t, Decidable (AgreesTo alnum n fs t)
  | 0, fs, t => inferInstanceAs (Decidable (SameNames alnum fs t))
  | n + 1, fs, t =>
    have := decidableAgreesTo n
    inferInstanceAs (Decidable (SameNames alnum fs t ∧
      ∀ c ∈ filled alnum t, AgreesTo alnum n (belowFields fs c.name) c.type))

end Condition

/-! ## Levels -/

theorem embeddedLevel_eq (t : GoType) : embeddedLevel t = levelFields (followed t) := by
  fun_cases followed t <;> simp_all [embeddedLevel, levelFields]

theorem mem_levelFields {fs : List StructField} {x : StructField} : x ∈ levelFields fs ↔
    ∃ sf ∈ fs, x = sf ∨ sf.anonymous = true ∧ x ∈ levelFields (followed sf.type) := by
  induction fs with
  | nil => simp [levelFields]
  | cons sf fs ih =>
    obtain ⟨name, exported, anonymous, tag, type⟩ := sf
    rw [levelFields, List.mem_append, ih]
    cases anonymous <;>
      simp [embeddedLevel_eq, StructField.anonymous, StructField.type]

theorem mem_docFields {fs : List StructField} {x : StructField} :
    x ∈ docFields fs ↔ x ∈ levelFields fs ∧ x.anonymous = false := by
  simp [docFields, List.mem_filter]

theorem docFields_mono {fs fs' : List StructField} (h : ∀ sf ∈ fs, sf ∈ fs') {x : StructField}
    (hx : x ∈ docFields fs) : x ∈ docFields fs' := by
  obtain ⟨hx, ha⟩ := mem_docFields.mp hx
  obtain ⟨sf, hsf, hx⟩ := mem_levelFields.mp hx
  exact mem_docFields.mpr ⟨mem_levelFields.mpr ⟨sf, h sf hsf, hx⟩, ha⟩

theorem mem_docFields_one {fs : List StructField} {x : StructField} (hx : x ∈ docFields fs) :
    ∃ sf ∈ fs, x ∈ docFields [sf] := by
  obtain ⟨hx, ha⟩ := mem_docFields.mp hx
  obtain ⟨sf, hsf, hx⟩ := mem_levelFields.mp hx
  exact ⟨sf, hsf, mem_docFields.mpr
    ⟨mem_levelFields.mpr ⟨sf, List.mem_singleton_self sf, hx⟩, ha⟩⟩

/-! ## Paths level by level -/

theorem not_documents_nil {fs : List StructField} : ¬ Documents fs [] := nofun

theorem Documents.mono {fs fs' : List StructField} (h : ∀ sf ∈ fs, sf ∈ fs') {p : List String}
    (hp : Documents fs p) : Documents fs' p := by
  cases hp with
  | field hsf => exact .field (docFields_mono h hsf)
  | inner hsf hp => exact .inner (docFields_mono h hsf) hp

theorem Documents.one {fs : List StructField} {p : List String} (hp : Documents fs p) :
    ∃ sf ∈ fs, Documents [sf] p := by
  cases hp with
  | field hx =>
    obtain ⟨sf, hsf, hx⟩ := mem_docFields_one hx
    exact ⟨sf, hsf, .field hx⟩
  | inner hx hp =>
    obtain ⟨sf, hsf, hx⟩ := mem_docFields_one hx
    exact ⟨sf, hsf, .inner hx hp⟩

section Json

variable (alnum : Char → Bool)

end Json

/-! ## The entries of a struct -/

/-- What `newField` and `parse` enter for a field. -/
def entry (sf : StructField) : String × Field := (sf.name, newField sf)

theorem newFields_some (fs : List StructField) : ∀ acc : FieldMap,
    (keys acc ++ fs.map StructField.name).Nodup →
      newFields (some acc) fs = some (acc ++ fs.map entry) := by
  induction fs with
  | nil =>
    intro acc _
    simp [newFields]
  | cons sf fs ih =>
    intro acc h
    obtain ⟨name, exported, anonymous, tag, type⟩ := sf
    have hnot : name ∉ keys acc := by
      intro hm
      rw [List.nodup_append] at h
      exact h.2.2 name hm name List.mem_cons_self rfl
    rw [newFields, Option.getD_some, put_of_not_mem hnot, ih]
    · simp [entry, StructField.name]
    · simpa [keys, StructField.name] using h

theorem newFields_none {fs : List StructField} (h : (fs.map StructField.name).Nodup) :
    (newFields none fs).getD [] = fs.map entry := by
  cases fs with
  | nil => simp [newFields]
  | cons sf fs =>
    obtain ⟨name, exported, anonymous, tag, type⟩ := sf
    rw [newFields, Option.getD_none, put, newFields_some]
    · simp [entry, StructField.name]
    · simpa [keys, StructField.name] using h

theorem name_newField (sf : StructField) : (newField sf).name = sf.shown := by
  obtain ⟨name, exported, anonymous, tag, type⟩ := sf
  rw [newField]
  rfl

theorem anonymous_newField (sf : StructField) : (newField sf).anonymous = sf.anonymous := by
  obtain ⟨name, exported, anonymous, tag, type⟩ := sf
  rw [newField]
  rfl

theorem child_newField (sf : StructField) : (newField sf).child = childOf sf.type := by
  obtain ⟨name, exported, anonymous, tag, type⟩ := sf
  rw [newField]
  rfl

namespace Consistent

variable {fs : List StructField}

theorem names (h : Consistent fs) : (fs.map StructField.name).Nodup := by
  cases h with
  | intro names _ _ => exact names

theorem struct (h : Consistent fs) {sf : StructField} (hsf : sf ∈ fs) :
    Consistent (followed sf.type) := by
  cases h with
  | intro _ _ below => exact below sf hsf

theorem children (h : Consistent fs) {sf : StructField} (hsf : sf ∈ fs) :
    (newField sf).child.getD [] = (followed sf.type).map entry := by
  rw [child_newField, childOf_eq]
  exact newFields_none (h.struct hsf).names

/-- A field of the level taken by itself. -/
theorem single (h : Consistent fs) {x : StructField} (hx : x ∈ levelFields fs) :
    Consistent [x] := by
  induction h with
  | @intro fs _ _ hbelow ih =>
    obtain ⟨sf, hsf, rfl | ⟨-, hx⟩⟩ := mem_levelFields.mp hx
    · refine .intro (List.nodup_singleton _) (fun y hy z hz hne => ?_) fun y hy => ?_
      · exact absurd ((List.mem_singleton.mp hy).trans (List.mem_singleton.mp hz).symm)
          fun heq => hne (congrArg _ heq)
      · exact List.mem_singleton.mp hy ▸ hbelow _ hsf
    · exact ih sf hsf hx

/-- The entries of a struct bring the entries of its level. -/
theorem brings (h : Consistent fs) {x : String × Field} :
    (∃ e ∈ fs.map entry, Brings e x) ↔ ∃ y ∈ levelFields fs, x = entry y := by
  induction h with
  | @intro fs hnames halike hbelow ih =>
    have hfs : Consistent fs := .intro hnames halike hbelow
    constructor
    · rintro ⟨e, he, hx⟩
      obtain ⟨sf, hsf, rfl⟩ := List.mem_map.mp he
      cases hx with
      | own _ => exact ⟨sf, mem_levelFields.mpr ⟨sf, hsf, Or.inl rfl⟩, rfl⟩
      | inner ha he hx =>
        have he : _ ∈ (newField sf).child.getD [] := he
        rw [hfs.children hsf] at he
        obtain ⟨y, hy, rfl⟩ := (ih sf hsf).mp ⟨_, he, hx⟩
        have ha : sf.anonymous = true := (anonymous_newField sf).symm.trans ha
        exact ⟨y, mem_levelFields.mpr ⟨sf, hsf, Or.inr ⟨ha, hy⟩⟩, rfl⟩
    · rintro ⟨y, hy, rfl⟩
      obtain ⟨sf, hsf, rfl | ⟨ha, hy⟩⟩ := mem_levelFields.mp hy
      · exact ⟨entry y, List.mem_map_of_mem hsf, .own _⟩
      · obtain ⟨e, he, hx⟩ := (ih sf hsf).mpr ⟨y, hy, rfl⟩
        refine ⟨entry sf, List.mem_map_of_mem hsf, .inner ((anonymous_newField sf).trans ha) ?_ hx⟩
        show e ∈ (newField sf).child.getD []
        rw [hfs.children hsf]
        exact he

/-- What holds of the entries of all consistent structs holds of these and below them. -/
theorem deep {p : FieldMap → Prop} (hp : ∀ {fs}, Consistent fs → p (fs.map entry))
    (h : Consistent fs) : Deep p (fs.map entry) := by
  induction h with
  | @intro fs hnames halike hbelow ih =>
    have hfs : Consistent fs := .intro hnames halike hbelow
    refine .intro (hp hfs) fun e he c hc => ?_
    obtain ⟨sf, hsf, rfl⟩ := List.mem_map.mp he
    have hchild := hfs.children hsf
    rw [show (newField sf).child = some c from hc, Option.getD_some] at hchild
    exact hchild ▸ ih sf hsf

theorem isMap (h : Consistent fs) : IsMap (fs.map entry) := h.deep fun {fs} h => by
  rw [keys, List.map_map]
  exact h.names

end Consistent

/-- A path is shown by a named field that the entry brings. -/
theorem shows_iff_brings {α : Type} {lab : String × Field → α} {e : String × Field} {p : List α} :
    Shows lab e p ↔ ∃ x, Brings e x ∧ x.2.anonymous = false ∧ Shows lab x p := by
  constructor
  · intro h
    induction h with
    | own ha => exact ⟨_, .own _, ha, .own ha⟩
    | inner ha he hp _ => exact ⟨_, .own _, ha, .inner ha he hp⟩
    | embedded ha he _ ih =>
      obtain ⟨x, hx, hnamed, hp⟩ := ih
      exact ⟨x, .inner ha he hx, hnamed, hp⟩
  · exact fun ⟨x, hx, _, hp⟩ => hx.shows hp

/-- The label of a field in the document. -/
def nameOf (e : String × Field) : String := e.2.name

/-- The entries of a struct show what its fields document. -/
theorem showsAll_entries (p : List String) : ∀ {fs : List StructField}, Consistent fs →
    (ShowsAll nameOf (fs.map entry) p ↔ Documents fs p) := by
  induction p with
  | nil => exact fun _ => iff_of_false not_showsAll_nil not_documents_nil
  | cons n q ih =>
    intro fs h
    have hshow : ∀ y ∈ docFields fs, Shows nameOf (entry y) (n :: q) ↔
        y.shown = n ∧ (q = [] ∨ Documents (followed y.type) q) := by
      intro y hy
      obtain ⟨hy, ha⟩ := mem_docFields.mp hy
      have hone := h.single hy
      have hself := List.mem_singleton_self y
      have hname : nameOf (entry y) = y.shown := name_newField y
      have hchild : (entry y).2.child.getD [] = (followed y.type).map entry := hone.children hself
      rw [shows_named ((anonymous_newField y).trans ha), hname, hchild]
      rw [← ih (hone.struct hself)]
      constructor
      · rintro ⟨q', heq, hq⟩
        obtain ⟨rfl, rfl⟩ := List.cons.inj heq
        exact ⟨rfl, hq⟩
      · rintro ⟨rfl, hq⟩
        exact ⟨q, rfl, hq⟩
    have hall : ShowsAll nameOf (fs.map entry) (n :: q) ↔
        ∃ y ∈ docFields fs, Shows nameOf (entry y) (n :: q) := by
      constructor
      · rintro ⟨e, he, hp⟩
        obtain ⟨x, hx, ha, hp⟩ := shows_iff_brings.mp hp
        obtain ⟨y, hy, rfl⟩ := h.brings.mp ⟨e, he, hx⟩
        exact ⟨y, mem_docFields.mpr ⟨hy, (anonymous_newField y).symm.trans ha⟩, hp⟩
      · rintro ⟨y, hy, hp⟩
        obtain ⟨e, he, hx⟩ := h.brings.mpr ⟨y, (mem_docFields.mp hy).1, rfl⟩
        exact ⟨e, he, hx.shows hp⟩
    rw [hall]
    constructor
    · rintro ⟨y, hy, hp⟩
      obtain ⟨rfl, rfl | hq⟩ := (hshow y hy).mp hp
      · exact .field hy
      · exact .inner hy hq
    · intro hp
      cases hp with
      | field hy => exact ⟨_, hy, (hshow _ hy).mpr ⟨rfl, Or.inl rfl⟩⟩
      | inner hy hq => exact ⟨_, hy, (hshow _ hy).mpr ⟨rfl, Or.inr hq⟩⟩

theorem shows_entry {y : StructField} (h : Consistent [y]) (p : List String) :
    Shows nameOf (entry y) p ↔ Documents [y] p := by
  rw [← showsAll_entries p h]
  simp [ShowsAll]

theorem Consistent.levels {fs : List StructField} (h : Consistent fs) :
    Levels (Alike (fun _ => ()) nameOf) (fs.map entry) := by
  have hlevel : ∀ sf ∈ fs, ∀ x, Brings (entry sf) x →
      ∃ y ∈ levelFields [sf], x = entry y ∧ Consistent [y] := by
    intro sf hsf x hx
    have hone := h.single (mem_levelFields.mpr ⟨sf, hsf, Or.inl rfl⟩)
    obtain ⟨y, hy, rfl⟩ := hone.brings.mp ⟨_, List.mem_singleton.mpr rfl, hx⟩
    exact ⟨y, hy, rfl, hone.single hy⟩
  intro e he e' he' hne x x' hx hx' hkey
  obtain ⟨sf, hsf, rfl⟩ := List.mem_map.mp he
  obtain ⟨sf', hsf', rfl⟩ := List.mem_map.mp he'
  obtain ⟨y, hy, rfl, hcons⟩ := hlevel sf hsf x hx
  obtain ⟨y', hy', rfl, hcons'⟩ := hlevel sf' hsf' x' hx'
  refine ⟨rfl, fun p => ?_⟩
  rw [shows_entry hcons, shows_entry hcons']
  cases h with
  | intro _ halike _ => exact halike sf hsf sf' hsf' hne y hy y' hy' hkey p

/-! ## The document -/

end Doodle.Service.Document
