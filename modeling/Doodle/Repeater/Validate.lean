/-
  `Validate` of `repeater/repeater.go`: the variables of an interface against a request.

  `Input` is what `Validate` reads of a request. `form` is `req.Form` as `ParseForm` leaves it; a
  body that cannot be read or a form that does not parse is `formErr`. Header names go through
  `canonical`, which may be any function.

  The loop deletes an optional variable without a value. A later variable of the same name finds no
  value before or after the deletion (`valueAt_delValue`), so the answer is that of the request
  as it came (`validateVars_ok_iff`), in whatever order the variables are.

  * `validate_ok_iff`: when `Validate` returns nil.
  * `exact_iff`: it accepts exactly the valid requests as long as the rows scan, no required
    variable stands in a position that it does not read, and the form parses.
-/
import Doodle.Go.Strconv
import Doodle.Repeater.DbCache

namespace Doodle.Repeater

open Doodle.Go

/-! ## The model -/

/-- `http.Request`, the parts `Validate` reads: `URL.Query()`, the headers by their canonical names,
    the form, and the error of reading it. -/
structure Input where
  query : String → List String
  header : String → List String
  form : String → List String
  formErr : Option String

/-- `server.URI` and so on. -/
def postionURI : Int := 0
def postionHEADER : Int := 1
def postionJSON : Int := 2
def postionFORM : Int := 3

/-- `VariablePostion.String` -/
def postionString (p : Int) : String :=
  if p = postionURI then "URI" else if p = postionHEADER then "HEADER"
  else if p = postionJSON then "JSON" else if p = postionFORM then "FORM" else "NIL"

section Model

variable (canonical : String → String)

/-- `Get` of a map of values: the first one, or the empty string. -/
def firstValue (vs : List String) : String := vs.headD ""

/-- The value of a variable; a position that is not listed has none. -/
def valueAt (req : Input) (v : Variable) : String :=
  if v.postion = postionURI then firstValue (req.query v.name)
  else if v.postion = postionFORM then firstValue (req.form v.name)
  else if v.postion = postionHEADER then firstValue (req.header (canonical v.name))
  else ""

/-- Whether the variable is to be deleted from the request. -/
def validateValue (v : Variable) (val : String) : Res Err Bool :=
  if !v.required && val = "" then .ok true
  else if v.type = "int" then
    if (parseInt val).isSome then .ok false
    else .err (.text ("key:" ++ v.name ++ " val:" ++ val ++ " is not number, in " ++
      postionString v.postion))
  else if val = "" then
    .err (.text ("key:" ++ v.name ++ " not found in " ++ postionString v.postion))
  else .ok false

/-- In the query only a copy is changed. -/
def delValue (req : Input) (v : Variable) : Input :=
  if v.postion = postionURI then req
  else if v.postion = postionHEADER then
    { req with header := fun k => if k = canonical v.name then [] else req.header k }
  else if v.postion = postionFORM then
    { req with form := fun k => if k = v.name then [] else req.form k }
  else req

/-- The form is read when there is a variable in it. -/
def parseForm (req : Input) (vars : List Variable) : Option Err :=
  if vars.any fun v => v.postion = postionFORM then req.formErr.map .text else none

/-- The loop of `Validate`. -/
def validateVars : List Variable → Input → Res Err Unit × Input
  | [], req => (.ok (), req)
  | v :: vars, req =>
    match validateValue v (valueAt canonical req v) with
    | .ok true => validateVars vars (delValue canonical req v)
    | .ok false => validateVars vars req
    | .err e => (.err e, req)
    | .panic p => (.panic p, req)

def validate (srv : Server) (tb : Tables) (tg ta : Int) (dc : DbCache) (iface : Interface)
    (req : Input) : Res Err Unit × Input × DbCache :=
  match getVariable srv tb tg ta dc iface.id with
  | (.err e, dc) => (.err e, req, dc)
  | (.panic p, dc) => (.panic p, req, dc)
  | (.ok vars, dc) =>
    match parseForm req vars with
    | some e => (.err e, req, dc)
    | none =>
      let (res, req) := validateVars canonical vars req
      (res, req, dc)

end Model

/-! ## One variable -/

/-- A position that `Validate` reads. -/
def Reads (p : Int) : Prop := p = postionURI ∨ p = postionHEADER ∨ p = postionFORM

instance (p : Int) : Decidable (Reads p) :=
  inferInstanceAs (Decidable (p = postionURI ∨ p = postionHEADER ∨ p = postionFORM))

/-- The value is missing and may be, or it is there and of the type. -/
def ValueMeets (v : Variable) (val : String) : Prop :=
  (val = "" ∧ v.required = false) ∨ (val ≠ "" ∧ (v.type = "int" → (parseInt val).isSome))

section Loop

variable {canonical : String → String}

theorem validateValue_cases (v : Variable) (val : String) :
    (val = "" ∧ v.required = false ∧ validateValue v val = .ok true) ∨
    (val ≠ "" ∧ ValueMeets v val ∧ validateValue v val = .ok false) ∨
    (¬ ValueMeets v val ∧ ∃ e, validateValue v val = .err e) := by
  have hempty : parseInt "" = none := by decide
  by_cases hval : val = ""
  · subst hval
    cases hr : v.required with
    | false => exact Or.inl ⟨rfl, rfl, by simp [validateValue, hr]⟩
    | true =>
      refine Or.inr (Or.inr ⟨by simp [ValueMeets, hr], ?_⟩)
      by_cases ht : v.type = "int" <;> simp [validateValue, hr, ht, hempty]
  · refine Or.inr ?_
    by_cases ht : v.type = "int"
    · by_cases hp : (parseInt val).isSome = true
      · exact Or.inl ⟨hval, by simp [ValueMeets, hval, hp], by simp [validateValue, hval, ht, hp]⟩
      · refine Or.inr ⟨by simp [ValueMeets, hval, ht, hp], ?_⟩
        simp [validateValue, hval, ht, hp]
    · exact Or.inl ⟨hval, by simp [ValueMeets, hval, ht], by simp [validateValue, hval, ht]⟩

theorem valueAt_of_not_reads (req : Input) {v : Variable} (h : ¬ Reads v.postion) :
    valueAt canonical req v = "" := by
  unfold Reads at h
  simp only [not_or] at h
  simp only [valueAt, h, if_false]

/-- Deleting a key without a first value changes no first value. -/
theorem firstValue_del {m : String → List String} {k : String} (h : firstValue (m k) = "")
    (k' : String) : firstValue (if k' = k then [] else m k') = firstValue (m k') := by
  by_cases hk : k' = k
  · rw [if_pos hk, hk, h]
    rfl
  · rw [if_neg hk]

/-- Deleting a variable without a value changes no value. -/
theorem valueAt_delValue {req : Input} {v : Variable} (h : valueAt canonical req v = "")
    (w : Variable) : valueAt canonical (delValue canonical req v) w = valueAt canonical req w := by
  unfold delValue
  by_cases hu : v.postion = postionURI
  · rw [if_pos hu]
  by_cases hh : v.postion = postionHEADER
  · have hnone : firstValue (req.header (canonical v.name)) = "" := by
      simpa [valueAt, hh, postionURI, postionHEADER, postionFORM] using h
    rw [if_neg hu, if_pos hh]
    simp only [valueAt, firstValue_del hnone]
  by_cases hf : v.postion = postionFORM
  · have hnone : firstValue (req.form v.name) = "" := by
      simpa [valueAt, hf, postionURI, postionFORM] using h
    rw [if_neg hu, if_neg hh, if_pos hf]
    simp only [valueAt, firstValue_del hnone]
  · rw [if_neg hu, if_neg hh, if_neg hf]

/-- The loop accepts when every value passes, read from the request as it came. -/
theorem validateVars_ok_iff (vars : List Variable) :
    ∀ req, (validateVars canonical vars req).1 = .ok () ↔
      ∀ v ∈ vars, ValueMeets v (valueAt canonical req v) := by
  induction vars with
  | nil =>
    intro req
    simp [validateVars]
  | cons v vars ih =>
    intro req
    rw [List.forall_mem_cons]
    obtain ⟨hval, hr, hd⟩ | ⟨-, hm, hd⟩ | ⟨hno, e, hd⟩ :=
      validateValue_cases v (valueAt canonical req v)
    · -- the variable is deleted, and the rest of the loop reads the same values
      have hm : ValueMeets v (valueAt canonical req v) := Or.inl ⟨hval, hr⟩
      simp only [validateVars, hd, ih, valueAt_delValue hval, hm, true_and]
    · simp only [validateVars, hd, ih, hm, true_and]
    · simp [validateVars, hd, hno]

end Loop

/-! ## The request -/

/-- What a request has to bring for a variable. -/
def Meets (canonical : String → String) (req : Input) (v : Variable) : Prop :=
  Reads v.postion → ValueMeets v (valueAt canonical req v)

/-- No required variable stands where `Validate` does not look. -/
def Readable (vars : List Variable) : Prop :=
  ∀ v ∈ vars, ¬ Reads v.postion → v.required = false

/-- The form parses, if there is a variable in it. -/
def FormParses (vars : List Variable) (req : Input) : Prop :=
  (∃ v ∈ vars, v.postion = postionFORM) → req.formErr = none

theorem parseForm_eq_none (req : Input) (vars : List Variable) :
    parseForm req vars = none ↔ FormParses vars req := by
  unfold parseForm FormParses
  by_cases h : ∃ v ∈ vars, v.postion = postionFORM
  · have hany : (vars.any fun v => decide (v.postion = postionFORM)) = true := by
      simpa using h
    simp [hany, h]
  · have hany : (vars.any fun v => decide (v.postion = postionFORM)) = false := by
      simpa using h
    simp [hany, h]

section Request

variable (canonical : String → String) (req : Input)

/-- A variable elsewhere passes exactly when it is optional. -/
theorem valueMeets_iff (v : Variable) : ValueMeets v (valueAt canonical req v) ↔
    Meets canonical req v ∧ (¬ Reads v.postion → v.required = false) := by
  by_cases hr : Reads v.postion
  · simp [Meets, hr]
  · simp [Meets, hr, ValueMeets, valueAt_of_not_reads req hr]

/-- When `Validate` returns nil, for the variables it got. -/
theorem validate_ok_iff {srv : Server} {tb : Tables} {tg ta : Int} {dc : DbCache} {iface : Interface}
    {vars : List Variable} (hget : (getVariable srv tb tg ta dc iface.id).1 = .ok vars) :
    (validate canonical srv tb tg ta dc iface req).1 = .ok () ↔
      (∀ v ∈ vars, Meets canonical req v) ∧ Readable vars ∧ FormParses vars req := by
  have hmeets : (∀ v ∈ vars, ValueMeets v (valueAt canonical req v)) ↔
      (∀ v ∈ vars, Meets canonical req v) ∧ Readable vars := by
    simp only [valueMeets_iff, Readable]
    exact ⟨fun h => ⟨fun v hv => (h v hv).1, fun v hv => (h v hv).2⟩,
      fun h v hv => ⟨h.1 v hv, h.2 v hv⟩⟩
  rw [← and_assoc, ← hmeets, ← parseForm_eq_none, ← validateVars_ok_iff]
  unfold validate
  generalize getVariable srv tb tg ta dc iface.id = x at hget
  obtain ⟨y, dc'⟩ := x
  obtain rfl : y = .ok vars := hget
  cases hf : parseForm req vars with
  | some e => simp [hf]
  | none => simp [hf]

/-- The variable of a row as the table has it: 0 is optional. -/
def VariableRow.val (r : VariableRow) : Variable := ⟨r.postion, r.name, r.type, r.required ≠ 0⟩

/-- `required` of every row scans into a bool. -/
def Scans (rows : List VariableRow) : Prop := ∀ r ∈ rows, r.required = 0 ∨ r.required = 1

theorem scan_eq_some_iff (r : VariableRow) {v : Variable} :
    r.scan = some v ↔ (r.required = 0 ∨ r.required = 1) ∧ v = r.val := by
  unfold VariableRow.scan scanBool VariableRow.val
  by_cases h0 : r.required = 0
  · simp [h0, eq_comm]
  by_cases h1 : r.required = 1
  · simp [h1, eq_comm]
  · simp [h0, h1]

theorem scanVars_eq_some_iff (rows : List VariableRow) : ∀ {vars : List Variable},
    scanVars rows = some vars ↔ Scans rows ∧ vars = rows.map VariableRow.val := by
  induction rows with
  | nil => simp [scanVars, Scans, eq_comm]
  | cons r rows ih =>
    intro vars
    have hcons : scanVars (r :: rows) = r.scan.bind fun v => (scanVars rows).map (v :: ·) := by
      simp [scanVars, Option.map_eq_bind]
    rw [hcons, Option.bind_eq_some_iff]
    simp only [scan_eq_some_iff, Option.map_eq_some_iff, ih, Scans, List.forall_mem_cons,
      List.map_cons]
    constructor
    · rintro ⟨v, ⟨hr, rfl⟩, vs, ⟨hrows, rfl⟩, rfl⟩
      exact ⟨⟨hr, hrows⟩, rfl⟩
    · rintro ⟨⟨hr, hrows⟩, rfl⟩
      exact ⟨_, ⟨hr, rfl⟩, _, ⟨hrows, rfl⟩, rfl⟩

/-- Whatever state the gateway is in, as long as `getVariable` answers for these rows, and in
    whatever order it gets them, `Validate` accepts the request exactly when it meets them. -/
def Exact (rows : List VariableRow) : Prop :=
  ∀ srv tb tg ta dc iface rows', rows'.Perm rows →
    (getVariable srv tb tg ta dc iface.id).1 = orErr (scanVars rows') scanErr →
    ((validate canonical srv tb tg ta dc iface req).1 = .ok () ↔
      ∀ r ∈ rows, Meets canonical req r.val)

/-- When `Validate` returns nil, for the rows it got. -/
theorem validate_rows_iff {srv : Server} {tb : Tables} {tg ta : Int} {dc : DbCache}
    {iface : Interface} {rows : List VariableRow}
    (hget : (getVariable srv tb tg ta dc iface.id).1 = orErr (scanVars rows) scanErr) :
    (validate canonical srv tb tg ta dc iface req).1 = .ok () ↔
      (∀ r ∈ rows, Meets canonical req r.val) ∧ Scans rows ∧ Readable (rows.map VariableRow.val) ∧
        FormParses (rows.map VariableRow.val) req := by
  by_cases hscan : Scans rows
  · rw [(scanVars_eq_some_iff rows).mpr ⟨hscan, rfl⟩] at hget
    rw [validate_ok_iff canonical req hget]
    simp only [List.forall_mem_map, hscan, true_and]
  · have hnone : scanVars rows = none := Option.eq_none_iff_forall_not_mem.mpr fun vars h =>
      hscan ((scanVars_eq_some_iff rows).mp h).1
    rw [hnone] at hget
    refine iff_of_false ?_ fun h => hscan h.2.1
    unfold validate
    generalize getVariable srv tb tg ta dc iface.id = x at hget
    obtain ⟨y, dc'⟩ := x
    obtain rfl : y = .err scanErr := hget
    simp

theorem scans_perm {rows rows' : List VariableRow} (h : rows'.Perm rows) :
    Scans rows' ↔ Scans rows := by
  unfold Scans
  simp only [h.mem_iff]

theorem readable_perm {vars vars' : List Variable} (h : vars'.Perm vars) :
    Readable vars' ↔ Readable vars := by
  unfold Readable
  simp only [h.mem_iff]

theorem formParses_perm {vars vars' : List Variable} (h : vars'.Perm vars) :
    FormParses vars' req ↔ FormParses vars req := by
  unfold FormParses
  simp only [h.mem_iff]

/-- The tables with these variables, all of interface 1. -/
def onlyVars (rows : List VariableRow) : Tables :=
  ⟨id, [], [], [], [], rows.map fun r => { r with interfaceID := 1 }⟩

/-- Every list of rows is that of some interface. -/
theorem getVariable_onlyVars (rows : List VariableRow) :
    (getVariable (fun _ => true) (onlyVars rows) 0 0 (initDC (fun _ => true) 0) 1).1 =
      orErr (scanVars rows) scanErr := by
  let srv : Server := fun _ => true
  have hs : srv.Reliable := fun _ => rfl
  obtain ⟨hlive, hcache⟩ := initDC_spec srv hs 0
  have hsel : scanVars (selVar (onlyVars rows) 1) = scanVars rows := by
    have hrows : selVar (onlyVars rows) 1 = rows.map fun r => { r with interfaceID := 1 } :=
      List.filter_eq_self.mpr fun r hr => by
        obtain ⟨r', -, rfl⟩ := List.mem_map.mp hr
        rfl
    rw [hrows, scanVars, scanVars, List.mapM_map]
    rfl
  have hmiss : (initDC srv 0).cache.get 0 (varKey 1) = ((initDC srv 0).cache, none) := by
    rw [hcache]
    rfl
  show (getVariable srv (onlyVars rows) 0 0 (initDC srv 0) 1).1 = _
  simp only [getVariable, lookupVia, hmiss, variableMiss_live srv hs _ _ _ hlive, varsOf, hsel]
  cases scanVars rows <;> rfl

theorem scans_of_exact {rows : List VariableRow} (h : Exact canonical req rows)
    (hmeets : ∀ r ∈ rows, Meets canonical req r.val) : Scans rows ∧
      Readable (rows.map VariableRow.val) ∧ FormParses (rows.map VariableRow.val) req := by
  have hget : (getVariable _ _ 0 0 _ (⟨1, 0, "", "", "", ⟨1, false, 0⟩⟩ : Interface).id).1 =
      orErr (scanVars rows) scanErr := getVariable_onlyVars rows
  have hok := (h _ _ 0 0 _ _ rows (List.Perm.refl rows) hget).mpr hmeets
  exact ((validate_rows_iff canonical req hget).mp hok).2

/-- `Validate` is exact when the request lacks something anyway, or every row scans, no required
    variable stands where it does not look, and the form parses. -/
theorem exact_iff (rows : List VariableRow) : Exact canonical req rows ↔
    (∃ r ∈ rows, ¬ Meets canonical req r.val) ∨ (Scans rows ∧
      Readable (rows.map VariableRow.val) ∧ FormParses (rows.map VariableRow.val) req) := by
  constructor
  · intro h
    by_cases hmeets : ∀ r ∈ rows, Meets canonical req r.val
    · exact Or.inr (scans_of_exact canonical req h hmeets)
    · simp only [not_forall] at hmeets
      obtain ⟨r, hr, hno⟩ := hmeets
      exact Or.inl ⟨r, hr, hno⟩
  · intro h srv tb tg ta dc iface rows' hperm hget
    have hvals := hperm.map VariableRow.val
    rw [validate_rows_iff canonical req hget, scans_perm hperm, readable_perm hvals,
      formParses_perm req hvals]
    simp only [hperm.mem_iff]
    rcases h with ⟨r, hr, hno⟩ | hok
    · exact iff_of_false (fun h => hno (h.1 r hr)) fun h => hno (h r hr)
    · exact and_iff_left hok

end Request

/-- A field of the request body, as registration stores it. -/
def jsonField : VariableRow := ⟨1, 4, "id", "int", 1⟩

/-- A registered interface with a required field in its JSON body accepts no request. -/
theorem json_field_rejected :
    ¬ ∃ canonical, Exact canonical ⟨fun _ => [], fun _ => [], fun _ => [], none⟩ [jsonField] := by
  rintro ⟨canonical, h⟩
  have hreads : ¬ Reads jsonField.val.postion := by decide
  have hmeets : ∀ r ∈ [jsonField],
      Meets canonical ⟨fun _ => [], fun _ => [], fun _ => [], none⟩ r.val := by
    intro r hr hreads'
    obtain rfl := List.mem_singleton.mp hr
    exact absurd hreads' hreads
  obtain ⟨-, hread, -⟩ := scans_of_exact canonical _ h hmeets
  exact absurd (hread jsonField.val (List.mem_singleton_self _) hreads) (by decide)

end Doodle.Repeater
