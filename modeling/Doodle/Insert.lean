/-
  The insert builders: `add` of `manager/db.go` and of `rbac/db.go`.

  Both walk a struct twice, once for the columns and once for the values, and splice names, defaults
  and string values into the statement as they are. The one of rbac leaves out auto-increment
  fields and fields of other tables, and updates a row that is already there.

  `readInsert` reads the text back, with MySQL's rules for quotes. What is a column name and what an
  expression is left to a `Grammar`. `stores_iff`: the text is one insert whose columns are the
  fields' and whose values denote the fields' values exactly when some field is written, the names
  and the defaults that are used are each one column and one expression, and every string reads as
  itself. So a quote or a backslash in a string, and an empty string without a default, are stored
  as something else or not at all.
-/
import Doodle.Lib.Entries
import Doodle.Rbac.Sql

namespace Doodle.Insert

open Doodle.Lib.Entries

/-! ## The builders -/

/-- The value of a field. -/
inductive Value where
  | int (n : Int)
  | bool (b : Bool)
  | str (s : String)

/-- A field of a struct: its name, its tags `db` and `db_default`, and its value. -/
structure Field where
  name : String
  db : String
  dbDefault : String
  value : Value

/-- The two packages that have an `add`. -/
inductive Package where
  | manager
  | rbac

/-- The fields `add` passes over in both loops. -/
def Package.skips : Package → Field → Bool
  | manager, _ => false
  | rbac, f => f.dbDefault = "auto" || f.db.toList.contains '.'

/-- What follows the closing parenthesis of the values. -/
def Package.tail : Package → String
  | manager => ""
  | rbac => " ON DUPLICATE KEY UPDATE id=LAST_INSERT_ID(id), mtime=now()"

def Field.column (f : Field) : List Char := (if f.db = "" then f.name else f.db).toList

/-- The text of the value: a string between quotes, an empty one as its default. -/
def Field.text (f : Field) : List Char :=
  match f.value with
  | .int n => n.repr.toList
  | .bool b => [if b then '1' else '0']
  | .str s => if s = "" then f.dbDefault.toList else Rbac.quote :: s.toList ++ [Rbac.quote]

/-- `bs.Truncate(bs.Len() - 2)` -/
def truncate (bs : List Char) : List Char := bs.take (bs.length - 2)

/-- One of the two loops. -/
def Package.loop (p : Package) (text : Field → List Char) (fs : List Field) : List Char :=
  fs.flatMap fun f => if p.skips f then [] else text f ++ [',', ' ']

def opening (table : String) : List Char := "insert into ".toList ++ table.toList ++ [' ', '(']

/-- The statement; `none` for a struct without fields. -/
def Package.add (p : Package) (table : String) (fs : List Field) : Option (List Char) :=
  if fs.isEmpty then none
  else
    let bs := truncate (opening table ++ p.loop Field.column fs)
    let bs := truncate (bs ++ ") values (".toList ++ p.loop Field.text fs)
    some (bs ++ ')' :: p.tail.toList)

/-! ## Reading it back -/

/-- What MySQL takes for a column name and for an expression. -/
structure Grammar where
  column : List Char → Bool
  expr : List Char → Bool
  expr_nil : expr [] = false

/-- The text behind `front`. -/
def behind (front text : List Char) : Option (List Char) :=
  if front.isPrefixOf text then some (text.drop front.length) else none

/-- The column list and the value list of one insert into the table, with that tail. -/
def readInsert (table : String) (tail : List Char) (text : List Char) :
    Option (List (List Char) × List (List Char)) := do
  let text ← behind (opening table) text
  let (cols, text) ← entries text
  let text ← behind " values (".toList text
  let (vals, text) ← entries text
  if text = tail then some (cols, vals) else none

/-- The value of an entry that is one string literal. -/
def literalValue : List Char → Option String
  | [] => none
  | c :: cs =>
    if c = Rbac.quote ∧ cs.getLast? = some Rbac.quote then
      (Rbac.readChars cs.dropLast).map String.ofList
    else none

/-- The entry is the column of the field. -/
def Field.Named (G : Grammar) (f : Field) (e : List Char) : Prop :=
  e = f.column ∧ G.column e = true

/-- The entry denotes the value of the field, or is its default when that is the empty string. -/
def Field.Denoted (G : Grammar) (f : Field) (e : List Char) : Prop :=
  match f.value with
  | .int n => Rbac.readNumber (String.ofList e) = some n
  | .bool b => Rbac.readNumber (String.ofList e) = some (if b then 1 else 0)
  | .str s =>
    if s = "" then e = f.dbDefault.toList ∧ G.expr e = true else literalValue e = some s

/-- The fields that are written. -/
def Package.written (p : Package) (fs : List Field) : List Field := fs.filter fun f => !p.skips f

/-- The statement is one insert, with as many values as columns, each column that of its field and
    each value denoting the value of the field behind its column. -/
def Stores (p : Package) (G : Grammar) (table : String) (fs : List Field) : Prop :=
  ∀ text, p.add table fs = some text → ∃ cols vals,
    readInsert table p.tail.toList text = some (cols, vals) ∧ cols.length = vals.length ∧
      List.Forall₂ (Field.Named G) (p.written fs) cols ∧
      List.Forall₂ (Field.Denoted G) (p.written fs) vals

/-- The name is one column, and the value is spliced in as what it is. -/
def Field.Fits (G : Grammar) (f : Field) : Prop :=
  closed f.column = true ∧ G.column f.column = true ∧
    match f.value with
    | .int _ | .bool _ => True
    | .str s =>
      if s = "" then closed f.dbDefault.toList = true ∧ G.expr f.dbDefault.toList = true
      else Rbac.readLiteral s = some s

/-! ## The text -/

theorem truncate_append (bs : List Char) (a b : Char) : truncate (bs ++ [a, b]) = bs := by
  simp [truncate]

/-- The entries with a separator after each, up to the last one. -/
theorem truncate_separated (bs : List Char) {es : List (List Char)} (hne : es ≠ []) :
    truncate (bs ++ es.flatMap (· ++ [',', ' '])) = bs ++ commas es := by
  induction es generalizing bs with
  | nil => exact absurd rfl hne
  | cons e es ih =>
    cases es with
    | nil =>
      simp only [List.flatMap_cons, List.flatMap_nil, List.append_nil, commas]
      rw [← List.append_assoc]
      exact truncate_append _ _ _
    | cons e' es =>
      have htail := ih (bs ++ (e ++ [',', ' '])) (List.cons_ne_nil _ _)
      rw [List.flatMap_cons, ← List.append_assoc, htail]
      simp [commas]

theorem loop_eq (p : Package) (text : Field → List Char) (fs : List Field) :
    p.loop text fs = ((p.written fs).map text).flatMap (· ++ [',', ' ']) := by
  induction fs with
  | nil => rfl
  | cons f fs ih =>
    unfold Package.loop Package.written at ih ⊢
    rw [List.flatMap_cons, List.filter_cons, ih]
    cases p.skips f <;> simp

/-- The statement of a struct with a field that is written. -/
theorem add_eq {p : Package} (table : String) {fs : List Field} (hne : p.written fs ≠ []) :
    p.add table fs = some (opening table ++ (commas ((p.written fs).map Field.column) ++
      ')' :: (" values (".toList ++ (commas ((p.written fs).map Field.text) ++
        ')' :: p.tail.toList)))) := by
  have hfs : fs.isEmpty = false := by
    cases fs with
    | nil => exact absurd rfl hne
    | cons f fs => rfl
  have hmap : ∀ text : Field → List Char, (p.written fs).map text ≠ [] := by simpa using hne
  simp only [Package.add, hfs, loop_eq, truncate_separated _ (hmap _), Bool.false_eq_true, if_false]
  simp

theorem behind_eq_some {front text rest : List Char} :
    behind front text = some rest ↔ text = front ++ rest := by
  unfold behind
  constructor
  · intro h
    split at h
    · next hfront =>
      obtain ⟨t, rfl⟩ := List.isPrefixOf_iff_prefix.mp hfront
      cases h
      simp
    · cases h
  · rintro rfl
    simp [List.isPrefixOf_iff_prefix]

/-- An insert is its opening and two lists. -/
theorem readInsert_eq_some {table : String} {tail text : List Char}
    {cols vals : List (List Char)} :
    readInsert table tail text = some (cols, vals) ↔
      ∃ rest rest', text = opening table ++ rest ∧
        entries rest = some (cols, " values (".toList ++ rest') ∧
        entries rest' = some (vals, tail) := by
  unfold readInsert
  simp only [Option.bind_eq_bind, Option.bind_eq_some_iff, behind_eq_some]
  constructor
  · rintro ⟨rest, rfl, ⟨cols', text⟩, hcols, rest', rfl, ⟨vals', tail'⟩, hvals, h⟩
    split at h
    · next htail =>
      cases h
      exact ⟨rest, rest', rfl, hcols, htail ▸ hvals⟩
    · cases h
  · rintro ⟨rest, rest', rfl, hcols, hvals⟩
    exact ⟨rest, rfl, _, hcols, rest', rfl, _, hvals, if_pos rfl⟩

/-! ## Strings -/

/-- The characters between two quotes, and what they stand for. -/
inductive Literal : List Char → List Char → Prop where
  | nil : Literal [] []
  | escaped {c : Char} {cs ds : List Char} (h : Literal cs ds) :
      Literal (Rbac.backslash :: c :: cs) (Rbac.unescape c ++ ds)
  | doubled {cs ds : List Char} (h : Literal cs ds) :
      Literal (Rbac.quote :: Rbac.quote :: cs) (Rbac.quote :: ds)
  | plain {c : Char} {cs ds : List Char} (hb : c ≠ Rbac.backslash) (hq : c ≠ Rbac.quote)
      (h : Literal cs ds) : Literal (c :: cs) (c :: ds)

theorem literal_of_readChars {cs ds : List Char} (h : Rbac.readChars cs = some ds) :
    Literal cs ds := by
  induction cs using Rbac.readChars.induct generalizing ds with
  | case1 =>
    cases h
    exact .nil
  | case2 => simp [Rbac.readChars] at h
  | case3 d cs ih =>
    rw [Rbac.readChars, if_pos rfl] at h
    obtain ⟨ds', hds, rfl⟩ := Option.map_eq_some_iff.mp h
    exact .escaped (ih hds)
  | case4 hb =>
    rw [Rbac.readChars, if_neg hb, if_pos rfl] at h
    cases h
  | case5 cs hb ih =>
    rw [Rbac.readChars, if_neg hb, if_pos rfl] at h
    obtain ⟨ds', hds, rfl⟩ := Option.map_eq_some_iff.mp h
    exact .doubled (ih hds)
  | case6 d cs hd hb =>
    rw [Rbac.readChars, if_neg hb, if_pos rfl] at h
    simp only [if_neg hd] at h
    cases h
  | case7 c cs hb hq ih =>
    unfold Rbac.readChars at h
    rw [if_neg hb, if_neg hq] at h
    obtain ⟨ds', hds, rfl⟩ := Option.map_eq_some_iff.mp h
    exact .plain hb hq (ih hds)

/-- A literal is at least as long as its value. -/
theorem Literal.length_le {cs ds : List Char} (h : Literal cs ds) : ds.length ≤ cs.length := by
  induction h with
  | nil => exact Nat.le_refl _
  | @escaped c cs ds _ ih =>
    have hc : (Rbac.unescape c).length ≤ 2 := by
      unfold Rbac.unescape
      split <;> simp
    simp only [List.length_append, List.length_cons]
    omega
  | doubled _ ih =>
    simp only [List.length_cons]
    omega
  | plain _ _ _ ih =>
    simp only [List.length_cons]
    omega

/-- Commas and parentheses stand for themselves, and nothing else stands for them. -/
theorem Literal.count_eq {d : Char} (hd : Delim d) {cs ds : List Char} (h : Literal cs ds) :
    ds.count d = cs.count d := by
  induction h with
  | nil => rfl
  | @escaped c cs ds _ ih =>
    have hc : (Rbac.unescape c).count d = [c].count d := by
      unfold Rbac.unescape
      rcases hd with rfl | rfl <;> split <;> simp [List.count_cons, Rbac.backslash]
    have hb : (Rbac.backslash :: c :: cs).count d = [c].count d + cs.count d := by
      rcases hd with rfl | rfl <;> simp [List.count_cons, Rbac.backslash, Nat.add_comm]
    rw [List.count_append, hc, hb, ih]
  | doubled _ ih =>
    rcases hd with rfl | rfl <;> simp [Rbac.quote, ih]
  | plain _ _ _ ih => rw [List.count_cons, List.count_cons, ih]

/-- Between quotes, a literal is read to its end. -/
theorem Literal.run_eq {cs ds : List Char} (h : Literal cs ds) :
    run ⟨.lit .single, 0⟩ cs = some ⟨.lit .single, 0⟩ := by
  induction h with
  | nil => rfl
  | escaped _ ih => exact ih
  | doubled _ ih => exact ih
  | plain hb hq _ ih =>
    have hstep : State.step ⟨.lit .single, 0⟩ _ = some ⟨.lit .single, 0⟩ :=
      (if_neg (by simpa [Quote.escapes, Rbac.backslash] using hb)).trans (if_neg hq)
    rw [run, hstep]
    exact ih

/-- The value of a literal is that of the text between its quotes. -/
theorem literalValue_eq_some {e : List Char} {s : String} (h : literalValue e = some s) :
    ∃ body, e = Rbac.quote :: body ++ [Rbac.quote] ∧ Rbac.readChars body = some s.toList := by
  cases e with
  | nil => cases h
  | cons c cs =>
    rw [literalValue] at h
    by_cases hc : c = Rbac.quote ∧ cs.getLast? = some Rbac.quote
    · rw [if_pos hc] at h
      obtain ⟨ds, hds, rfl⟩ := Option.map_eq_some_iff.mp h
      refine ⟨cs.dropLast, ?_, by simpa using hds⟩
      rw [hc.1, List.cons_append, List.dropLast_append_getLast? _ hc.2]
    · rw [if_neg hc] at h
      cases h

theorem literalValue_quoted (s t : String) :
    literalValue (Rbac.quote :: s.toList ++ [Rbac.quote]) = some t ↔
      Rbac.readLiteral s = some t := by
  simp [literalValue, Rbac.readLiteral]

/-- A string that is read with its value is read up to its own quote. A reading that ends before is
    too short for the value, and one that goes on takes the comma or the parenthesis behind the
    quote for a part of the value, which has one less of them. -/
theorem body_eq_of_value {body s rest rest' : List Char} {d d' : Char} (hd : Delim d)
    (hbody : Rbac.readChars body = some s)
    (h : body ++ Rbac.quote :: d' :: rest' = s ++ Rbac.quote :: d :: rest) : body = s := by
  have hlit := literal_of_readChars hbody
  rcases List.append_eq_append_iff.mp h with ⟨a, rfl, -⟩ | ⟨a, rfl, ha⟩
  · have hlen := hlit.length_le
    rw [List.length_append] at hlen
    have hnil : a = [] := List.length_eq_zero_iff.mp (by omega)
    rw [hnil, List.append_nil]
  · cases a with
    | nil => exact List.append_nil s
    | cons c a =>
      obtain ⟨rfl, htail⟩ := List.cons.inj ha
      cases a with
      | nil => exact absurd (List.cons.inj htail).1 (hd.ne_char .single)
      | cons c' a =>
        obtain ⟨rfl, -⟩ := List.cons.inj htail
        have hq : Rbac.quote ≠ d := (hd.ne_char .single).symm
        have hcount := hlit.count_eq hd
        rw [List.count_append, List.count_cons_of_ne hq, List.count_cons_self] at hcount
        omega

theorem closed_quoted {s : String} {ds : List Char} (h : Rbac.readChars s.toList = some ds) :
    closed (Rbac.quote :: s.toList ++ [Rbac.quote]) = true := by
  refine closed_eq_true.mpr ⟨⟨.shut .single, 0⟩, ?_, rfl⟩
  have hopen : run .start (Rbac.quote :: s.toList ++ [Rbac.quote]) =
      run ⟨.lit .single, 0⟩ (s.toList ++ [Rbac.quote]) := rfl
  rw [hopen, run_append, (literal_of_readChars h).run_eq]
  rfl

/-! ## Numbers -/

theorem readNumber_repr (n : Int) : Rbac.readNumber n.repr = some n := by
  cases n with
  | ofNat m =>
    rw [Int.repr, Rbac.readNumber, Nat.toList_repr]
    split
    · next ds h => exact absurd rfl (Go.sign_not_mem_toDigits '-' (h ▸ List.mem_cons_self)).1
    · next ds h => exact absurd rfl (Go.sign_not_mem_toDigits '+' (h ▸ List.mem_cons_self)).2
    · rw [Go.parseDigits_toDigits]
      rfl
  | negSucc m =>
    rw [Rbac.readNumber, Go.toList_repr_negSucc]
    simp only [Go.parseDigits_toDigits]
    rfl

theorem ordinary_of_isDigit {c : Char} (h : c.isDigit = true) : ordinary c = true := by
  have hne : ∀ d : Char, d.isDigit = false → c ≠ d := by
    rintro d hd rfl
    rw [h] at hd
    cases hd
  have hq : Quote.ofChar c = none := by
    unfold Quote.ofChar
    rw [if_neg (hne _ (by decide)), if_neg (hne _ (by decide)), if_neg (hne _ (by decide))]
  simp only [ordinary, hq, Option.isNone_none, Bool.true_and, Bool.and_eq_true,
    decide_eq_true_eq]
  exact ⟨⟨hne _ (by decide), hne _ (by decide)⟩, hne _ (by decide)⟩

theorem closed_repr (n : Int) : closed n.repr.toList = true := by
  refine closed_of_ordinary fun c hc => ?_
  have hdigits : ∀ m : Nat, ∀ c ∈ Nat.toDigits 10 m, ordinary c = true := fun m c hc =>
    ordinary_of_isDigit (Nat.isDigit_of_mem_toDigits (by decide) (by decide) hc)
  cases n with
  | ofNat m =>
    rw [Int.repr, Nat.toList_repr] at hc
    exact hdigits m c hc
  | negSucc m =>
    rw [Go.toList_repr_negSucc] at hc
    rcases List.mem_cons.mp hc with rfl | hc
    · decide
    · exact hdigits _ c hc

theorem closed_bool (b : Bool) : closed [if b then '1' else '0'] = true := by cases b <;> decide

theorem readNumber_bool (b : Bool) :
    Rbac.readNumber (String.ofList [if b then '1' else '0']) = some (if b then 1 else 0) := by
  cases b <;> decide

/-! ## Fields -/

section Fields

variable (G : Grammar)

/-- A name is read as it was written, or not as that name. -/
theorem named_only {f : Field} {e rest rest' : List Char} {d d' : Char} (_ : closed e = true)
    (_ : Delim d) (_ : Delim d') (_ : e ++ d' :: rest' = f.column ++ d :: rest)
    (h : f.Named G e) : e = f.column := h.1

/-- A value is read as it was written, or as one the field does not have. -/
theorem denoted_only {f : Field} {e rest rest' : List Char} {d d' : Char} (he : closed e = true)
    (hd : Delim d) (hd' : Delim d') (h : e ++ d' :: rest' = f.text ++ d :: rest)
    (hden : f.Denoted G e) : e = f.text := by
  obtain ⟨name, db, dbDefault, value⟩ := f
  cases value with
  | int n => exact closed_unique he (closed_repr n) hd' hd h
  | bool b => exact closed_unique he (closed_bool b) hd' hd h
  | str s =>
    by_cases hs : s = ""
    · simp only [Field.Denoted, if_pos hs] at hden
      simp only [Field.text, if_pos hs]
      exact hden.1
    · simp only [Field.Denoted, if_neg hs] at hden
      simp only [Field.text, if_neg hs] at h ⊢
      obtain ⟨body, rfl, hbody⟩ := literalValue_eq_some hden
      have heq : body = s.toList := body_eq_of_value hd hbody (by simpa using h)
      rw [heq]

/-- What is written for a field is read as what it is exactly when the field fits. -/
theorem fits_iff (f : Field) : f.Fits G ↔ closed f.column = true ∧ f.Named G f.column ∧
    closed f.text = true ∧ f.Denoted G f.text := by
  obtain ⟨name, db, dbDefault, value⟩ := f
  simp only [Field.Fits, Field.Named, true_and]
  refine and_congr_right fun _ => and_congr_right fun _ => ?_
  cases value with
  | int n =>
    refine iff_of_true trivial ⟨closed_repr n, ?_⟩
    simp [Field.Denoted, Field.text, readNumber_repr]
  | bool b => exact iff_of_true trivial ⟨closed_bool b, readNumber_bool b⟩
  | str s =>
    by_cases hs : s = ""
    · simp only [Field.Denoted, Field.text, if_pos hs, true_and]
    · simp only [Field.Denoted, Field.text, if_neg hs, literalValue_quoted]
      refine ⟨fun h => ⟨?_, h⟩, fun h => h.2⟩
      obtain ⟨ds, hds, -⟩ := Option.map_eq_some_iff.mp h
      exact closed_quoted hds

end Fields

/-! ## The statement -/

/-- When every field fits, both lists are read as they were written. -/
theorem stores_of_fits {p : Package} {G : Grammar} (table : String) {fs : List Field}
    (hne : p.written fs ≠ []) (hfits : ∀ f ∈ p.written fs, f.Fits G) : Stores p G table fs := by
  intro text htext
  rw [add_eq table hne] at htext
  cases htext
  have hall := fun f hf => (fits_iff G f).mp (hfits f hf)
  have hforall : ∀ {t : Field → List Char} {R : Field → List Char → Prop},
      (∀ f ∈ p.written fs, R f (t f)) → List.Forall₂ R (p.written fs) ((p.written fs).map t) := by
    intro t R hR
    rw [List.forall₂_map_right_iff, List.forall₂_same]
    exact hR
  have hread : ∀ {t : Field → List Char} (rest : List Char),
      (∀ f ∈ p.written fs, closed (t f) = true) →
      entries (commas ((p.written fs).map t) ++ ')' :: rest) =
        some ((p.written fs).map t, rest) := by
    intro t rest hclosed
    refine entries_commas (by simpa using hne) ?_ rest
    simpa using hclosed
  refine ⟨(p.written fs).map Field.column, (p.written fs).map Field.text, ?_, by simp,
    hforall fun f hf => (hall f hf).2.1, hforall fun f hf => (hall f hf).2.2.2⟩
  exact readInsert_eq_some.mpr ⟨_, _, rfl, hread _ fun f hf => (hall f hf).1,
    hread _ fun f hf => (hall f hf).2.2.1⟩

/-- What is read as it should be was written as it should be. -/
theorem fits_of_stores {p : Package} {G : Grammar} {table : String} {fs : List Field}
    (hne : p.written fs ≠ []) (h : Stores p G table fs) : ∀ f ∈ p.written fs, f.Fits G := by
  obtain ⟨cols, vals, hread, -, hcols, hvals⟩ := h _ (add_eq table hne)
  obtain ⟨rest, rest', htext, hread, hread'⟩ := readInsert_eq_some.mp hread
  obtain rfl := List.append_cancel_left htext
  obtain ⟨hrest, rfl, hcolumn⟩ :=
    entries_commas_inv (fun _ _ _ _ _ _ => named_only G) hne hread hcols
  obtain rfl := List.append_cancel_left hrest
  obtain ⟨-, rfl, htexts⟩ :=
    entries_commas_inv (fun _ _ _ _ _ _ => denoted_only G) hne hread' hvals
  rw [List.forall₂_map_right_iff, List.forall₂_same] at hcols hvals
  intro f hf
  exact (fits_iff G f).mpr ⟨hcolumn f hf, hcols f hf, htexts f hf, hvals f hf⟩

theorem truncate_opening (table : String) :
    truncate (opening table) = "insert into ".toList ++ table.toList :=
  truncate_append _ _ _

theorem truncate_values (bs : List Char) :
    truncate (bs ++ ") values (".toList) = bs ++ ") values".toList := by
  have hsplit : ") values (".toList = ") values".toList ++ [' ', '('] := by decide
  rw [hsplit, ← List.append_assoc]
  exact truncate_append _ _ _

theorem add_eq_of_none {p : Package} (table : String) {fs : List Field} (hfs : fs ≠ [])
    (hnone : p.written fs = []) :
    p.add table fs = some ("insert into ".toList ++ table.toList ++ ") values".toList ++
      ')' :: p.tail.toList) := by
  have hempty : fs.isEmpty = false := by simpa using hfs
  simp only [Package.add, hempty, loop_eq, hnone, List.map_nil, List.flatMap_nil,
    List.append_nil, truncate_opening, truncate_values, Bool.false_eq_true, if_false]

theorem not_opening (front rest bs : List Char) :
    front ++ ") values".toList ++ bs ≠ front ++ [' ', '('] ++ rest := by
  have hvalues : ") values".toList = ')' :: " values".toList := by decide
  rw [List.append_assoc, List.append_assoc, hvalues]
  intro h
  exact absurd (List.cons.inj (List.append_cancel_left h)).1 (by decide)

/-- Without a field that is written the parenthesis of the columns is cut off. -/
theorem not_stores_of_none {p : Package} {G : Grammar} {table : String} {fs : List Field}
    (hfs : fs ≠ []) (hnone : p.written fs = []) : ¬ Stores p G table fs := by
  intro h
  obtain ⟨cols, vals, hread, -⟩ := h _ (add_eq_of_none table hfs hnone)
  obtain ⟨rest, rest', htext, -⟩ := readInsert_eq_some.mp hread
  exact not_opening _ rest _ htext

/-- For both packages, every struct and all its values: the statement stores what it is given
    exactly when there is nothing to store, or some field is written and every field that is
    written fits. -/
theorem stores_iff (p : Package) (G : Grammar) (table : String) (fs : List Field) :
    Stores p G table fs ↔
      fs = [] ∨ p.written fs ≠ [] ∧ ∀ f ∈ p.written fs, f.Fits G := by
  by_cases hfs : fs = []
  · refine iff_of_true ?_ (.inl hfs)
    intro text htext
    simp [Package.add, hfs] at htext
  · by_cases hne : p.written fs = []
    · exact iff_of_false (not_stores_of_none hfs hne) fun h => h.elim hfs fun h => h.1 hne
    · refine ⟨fun h => .inr ⟨hne, fits_of_stores hne h⟩, fun h => ?_⟩
      exact stores_of_fits table hne (h.resolve_left hfs).2

/-- A name with a quote in it. -/
def obrien : List Field :=
  [⟨"ID", "", "auto", .int 0⟩, ⟨"Name", "name", "", .str "O'Brien"⟩,
    ⟨"Mtime", "mtime", "now()", .str ""⟩]

/-- `'O'Brien'` is not one value, in either package. -/
theorem quote_breaks_insert :
    ¬ ∃ p G, Stores p G "user" obrien := by
  rintro ⟨p, G, h⟩
  have hne : p.written obrien ≠ [] := by cases p <;> decide
  have hmem : ⟨"Name", "name", "", .str "O'Brien"⟩ ∈ p.written obrien := by
    cases p <;> simp [Package.written, obrien, Package.skips]
  have hfits := (fits_of_stores hne h _ hmem).2.2
  have hread : Rbac.readLiteral "O'Brien" = none := by
    simp [Rbac.readLiteral, Rbac.readChars, Rbac.quote, Rbac.backslash]
  simp [hread] at hfits

end Doodle.Insert
