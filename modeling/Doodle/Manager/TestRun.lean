/-
  `interfaceRun.PUT` of `manager/interface.go`: a test run of an interface. The values entered for
  its variables are put into a request to the backend, in one loop: into the query as they are,
  into the headers, and escaped into the body.

  * `fill_eq`: what the loop puts together, for any list of variables.
  * `Case.put_eq`: what the handler sends, for an address with a scheme and an authority. The whole
    text of the URL is parsed again, so a `#` in a value ends the query.

  The path of the address, which `Parse` of a nil URL cleans, is left out, as is the text of a
  parse error.
-/
import Doodle.Go.Header
import Doodle.Go.Spliced
import Doodle.Manager.Objects
import Doodle.Repeater.Target
import Doodle.Repeater.Validate

namespace Doodle.Manager.TestRun

open Doodle.Go
open Repeater (Address postionURI postionHEADER postionFORM)

/-! ## The request that is built -/

/-- `meta.Variable`, the fields that are read. -/
structure Var where
  name : String
  postion : Int
  required : Bool

/-- `meta.Interface`, the fields that are read. -/
structure Iface where
  method : Int
  backend : String

/-- `http.Request` as the handler fills it; `url` is the text it is parsed from. -/
structure Outgoing where
  method : String
  url : String
  scheme : String
  host : String
  rawQuery : List Char
  /-- canonical names and values, in the order they are added -/
  header : List (String × String)
  body : List Char

/-- The variables of the handler that the loop changes. -/
structure Draft where
  backend : List Char
  header : List (String × String)
  body : List Char

/-- The `switch` of the loop. -/
def Draft.add (d : Draft) (v : Var) (val : String) : Draft :=
  if v.postion = postionURI then { d with backend := d.backend ++ '&' :: rawPair (v.name, val) }
  else if v.postion = postionHEADER then
    { d with header := d.header ++ [(canonicalHeaderKey v.name, val)] }
  else if v.postion = postionFORM then
    { d with
      body := (if 0 < d.body.length then d.body ++ ['&'] else d.body) ++
        rawPair (v.name, String.ofList (queryEscape val.toList)) }
  else d

/-- The loop, where `val` is `r.FormValue`. -/
def fill (val : String → String) : List Var → Draft → Except String Draft
  | [], d => .ok d
  | v :: vs, d =>
    if val v.name = "" ∧ v.required = true then .error ("字段:" ++ v.name ++ "不能为空")
    else fill val vs (d.add v (val v.name))

/-- An address without a query gets the time as one. -/
def withTime (now : Int) (backend : String) : List Char :=
  if '?' ∈ backend.toList then backend.toList
  else backend.toList ++ "?t=".toList ++ now.repr.toList

/-- The scheme `url.Parse` finds, in lower case. -/
def schemeOf (text : List Char) : String :=
  match getscheme (before '#' text) with
  | some (scheme, _) => String.ofList (scheme.map Char.toLower)
  | none => ""

/-- `server.GET` -/
def methodGET : Int := 0

def contentType : String × String := ("Content-Type", "application/x-www-form-urlencoded")

/-- The struct of the handler. -/
def fields : List (Util.Field OneID) :=
  [⟨"id", "Required", .int (·.id) fun n r => { r with id := n }⟩]

/-- What the handler asks for. -/
structure Server where
  /-- `Validation.Valid` of the struct -/
  valid : OneID → Option String
  queryInterfaceInfo : Int → Except String Iface
  /-- `query("variable", …, "id", "asc", 0, 0, &vs)` -/
  queryVariables : Int → Except String (List Var)
  /-- `time.Now().Unix()` -/
  now : Int

/-- What the handler comes to. -/
inductive Run where
  | answered (r : Resp)
  | panicked
  | sent (o : Outgoing)

/-- From the loop on. The method `Parse` of a nil URL needs a text with a scheme. -/
def build (A : Authority) (now : Int) (iface : Iface) (vs : List Var) (val : String → String) :
    Run :=
  match fill val vs ⟨withTime now iface.backend, [], []⟩ with
  | .error e => .answered (.printf e)
  | .ok d =>
    match urlParse A (String.ofList d.backend) with
    | none => .answered (.printf ("parse " ++ String.ofList d.backend))
    | some u =>
      if schemeOf d.backend = "" then .panicked
      else .sent {
        method := if iface.method = methodGET then "GET" else "POST"
        url := String.ofList d.backend
        scheme := schemeOf d.backend
        host := u.host
        rawQuery := u.rawQuery.toList
        header := d.header ++ [contentType]
        body := d.body }

/-- `interfaceRun.PUT` up to `c.Do(req)`. -/
def put (A : Authority) (S : Server) (r : Util.Request) : Run :=
  match Util.decodeRequestValue fields S.valid r {} with
  | (some e, _) => .answered (.printf e)
  | (none, vars) =>
    match S.queryInterfaceInfo vars.id with
    | .error e => .answered (.printf e)
    | .ok iface =>
      match S.queryVariables vars.id with
      | .error e => .answered (.printf e)
      | .ok vs => build A S.now iface vs r.formValue

/-! ## The loop -/

/-- The variables of a position with their values. -/
def pairsAt (val : String → String) (p : Int) (vs : List Var) : List (String × String) :=
  (vs.filter fun v => v.postion = p).map fun v => (v.name, val v.name)

/-- What the headers of these variables are called. -/
def canonical (kv : String × String) : String × String := (canonicalHeaderKey kv.1, kv.2)

/-- A pair of the body: only the value is escaped. -/
def escapeValue (kv : String × String) : String × String :=
  (kv.1, String.ofList (queryEscape kv.2.toList))

section Loop

variable (val : String → String)

theorem pairsAt_cons (p : Int) (v : Var) (vs : List Var) : pairsAt val p (v :: vs) =
    if v.postion = p then (v.name, val v.name) :: pairsAt val p vs else pairsAt val p vs := by
  unfold pairsAt
  by_cases h : v.postion = p
  · simp [h]
  · simp [h]

theorem rawQuery_concat (ps : List (String × String)) (kv : String × String) :
    rawQuery (ps ++ [kv]) =
      (if 0 < (rawQuery ps).length then rawQuery ps ++ ['&'] else rawQuery ps) ++ rawPair kv := by
  cases ps with
  | nil => simp [rawQuery]
  | cons kv₀ ps =>
    have hpos : 0 < (rawQuery (kv₀ :: ps)).length :=
      List.length_pos_iff.mpr (by simp [rawQuery, rawPair])
    rw [if_pos hpos]
    simp [rawQuery, rawPair]

/-- A draft of these pairs after an address. -/
def drafted (base : List Char) (uri header form : List (String × String)) : Draft :=
  ⟨base ++ spliced uri, header.map canonical, rawQuery (form.map escapeValue)⟩

theorem add_drafted (base : List Char) (uri header form : List (String × String)) (v : Var) :
    (drafted base uri header form).add v (val v.name) =
      drafted base (uri ++ pairsAt val postionURI [v]) (header ++ pairsAt val postionHEADER [v])
        (form ++ pairsAt val postionFORM [v]) := by
  have hnil : ∀ p, pairsAt val p [] = [] := fun _ => rfl
  by_cases h0 : v.postion = postionURI
  · simp [Draft.add, drafted, pairsAt_cons, hnil, h0, postionURI, postionHEADER, postionFORM,
      spliced_concat]
  · by_cases h1 : v.postion = postionHEADER
    · simp [Draft.add, drafted, pairsAt_cons, hnil, h1, postionURI, postionHEADER, postionFORM,
        canonical]
    · by_cases h3 : v.postion = postionFORM
      · have hbody : rawQuery ((form ++ [(v.name, val v.name)]).map escapeValue) =
            (if 0 < (rawQuery (form.map escapeValue)).length then
              rawQuery (form.map escapeValue) ++ ['&'] else rawQuery (form.map escapeValue)) ++
              rawPair (escapeValue (v.name, val v.name)) := by
          rw [List.map_append]
          exact rawQuery_concat _ _
        simp only [Draft.add, drafted, pairsAt_cons, hnil, if_neg h0, if_neg h1, if_pos h3,
          List.append_nil, hbody]
        rfl
      · simp [Draft.add, drafted, pairsAt_cons, hnil, h0, h1, h3]

theorem pairsAt_append (p : Int) (vs vs' : List Var) :
    pairsAt val p (vs ++ vs') = pairsAt val p vs ++ pairsAt val p vs' := by
  simp [pairsAt]

/-- What the loop puts together when no value is missing. -/
theorem fill_drafted {vs : List Var} (h : ∀ v ∈ vs, ¬ (val v.name = "" ∧ v.required = true))
    (base : List Char) (uri header form : List (String × String)) :
    fill val vs (drafted base uri header form) =
      .ok (drafted base (uri ++ pairsAt val postionURI vs) (header ++ pairsAt val postionHEADER vs)
        (form ++ pairsAt val postionFORM vs)) := by
  induction vs generalizing uri header form with
  | nil => simp [fill, pairsAt]
  | cons v vs ih =>
    rw [List.forall_mem_cons] at h
    have hcons : ∀ p, pairsAt val p (v :: vs) = pairsAt val p [v] ++ pairsAt val p vs := fun p =>
      pairsAt_append val p [v] vs
    rw [fill, if_neg h.1, add_drafted, ih h.2]
    simp only [hcons, List.append_assoc]

theorem fill_eq {vs : List Var} (h : ∀ v ∈ vs, ¬ (val v.name = "" ∧ v.required = true))
    (base : List Char) : fill val vs ⟨base, [], []⟩ =
      .ok (drafted base (pairsAt val postionURI vs) (pairsAt val postionHEADER vs)
        (pairsAt val postionFORM vs)) := by
  have hstart : (⟨base, [], []⟩ : Draft) = drafted base [] [] [] := by
    simp [drafted, spliced, rawQuery]
  rw [hstart, fill_drafted val h]
  rfl

end Loop

/-! ## Runs -/

/-- A run of an interface with the address of a backend, variables in the query, the headers and
    the form, and a value for each. -/
structure Case (A : Authority) where
  server : Server
  /-- the request of the run, with the entered values -/
  r : Util.Request
  id : OneID
  decoded : Util.decodeRequestValue fields server.valid r {} = (none, id)
  method : Int
  backend : Address A
  isHttp : String.ofList (backend.scheme.map Char.toLower) = "http" ∨
    String.ofList (backend.scheme.map Char.toLower) = "https"
  host_ne : backend.host ≠ ""
  /-- as in any URL there is neither a blank nor a line end in the query -/
  query_line : ∀ q ∈ backend.query, ∀ c ∈ q, endsTarget c = false
  info : server.queryInterfaceInfo id.id = .ok ⟨method, backend.text⟩
  vars : List Var
  vars_eq : server.queryVariables id.id = .ok vars
  postion : ∀ v ∈ vars,
    v.postion = postionURI ∨ v.postion = postionHEADER ∨ v.postion = postionFORM
  alnum : ∀ v ∈ vars, ∀ c ∈ v.name.toList, c.isAlphanum = true
  distinct : (vars.map Var.name).Nodup
  bytes : ∀ v ∈ vars, IsBytes (r.formValue v.name)

namespace Case

section Run

variable {A : Authority} (t : Case A)

/-- The value entered for a variable. -/
def val (v : Var) : String := t.r.formValue v.name

/-- The variables of a position with the values entered for them. -/
def entered (p : Int) : List (String × String) := pairsAt t.r.formValue p t.vars

/-- A required variable has no value. The run then sends nothing. -/
def Missing : Prop := ∃ v ∈ t.vars, t.val v = "" ∧ v.required = true

/-- The query before the first variable. -/
def ownQuery : List Char :=
  match t.backend.query with
  | some q => q
  | none => rawPair ("t", t.server.now.repr)

def own : List (String × String) := (parseQuery t.ownQuery).pairs

/-- All of the query. -/
def queryText : List Char := t.ownQuery ++ spliced (t.entered postionURI)

/-- The text of the URL. -/
def url : List Char :=
  t.backend.scheme ++ "://".toList ++
    (t.backend.authority ++ (t.backend.path ++ '?' :: t.queryText))

/-- The request, for the query that `url.Parse` finds. -/
def outgoing (query : List Char) : Outgoing where
  method := if t.method = methodGET then "GET" else "POST"
  url := String.ofList t.url
  scheme := String.ofList (t.backend.scheme.map Char.toLower)
  host := t.backend.host
  rawQuery := query
  header := (t.entered postionHEADER).map canonical ++ [contentType]
  body := rawQuery ((t.entered postionFORM).map escapeValue)

theorem mem_entered {p : Int} {kv : String × String} :
    kv ∈ t.entered p ↔ ∃ v ∈ t.vars, v.postion = p ∧ (v.name, t.val v) = kv := by
  simp [Case.entered, pairsAt, val, and_assoc]

theorem nodup_entered (p : Int) : ((t.entered p).map Prod.fst).Nodup := by
  have hnames : (t.entered p).map Prod.fst =
      (t.vars.filter fun v => v.postion = p).map Var.name := by
    rw [Case.entered, pairsAt, List.map_map]
    rfl
  rw [hnames]
  exact t.distinct.sublist (List.filter_sublist.map Var.name)

theorem alnum_entered {p : Int} {kv : String × String} (h : kv ∈ t.entered p) :
    ∀ c ∈ kv.1.toList, c.isAlphanum = true := by
  obtain ⟨v, hv, -, rfl⟩ := t.mem_entered.mp h
  exact t.alnum v hv

theorem plainKey_entered {p : Int} {kv : String × String} (h : kv ∈ t.entered p) : PlainKey kv.1 :=
  plainKey_of_isAlphanum (t.alnum_entered h)

theorem endsTarget_ownQuery : ∀ c ∈ t.ownQuery, endsTarget c = false := by
  have htime : PlainKey "t" := by decide
  intro c hc
  unfold ownQuery at hc
  split at hc
  · next q hq => exact t.query_line q hq c hc
  · exact (isPlain_iff.mp (isPlain_rawPair htime (safe_repr _) c hc)).2

/-! ### The text of the URL -/

theorem withTime_backend :
    withTime t.server.now t.backend.text = t.backend.scheme ++ "://".toList ++
      (t.backend.authority ++ (t.backend.path ++ '?' :: t.ownQuery)) := by
  have htext : t.backend.text.toList = t.backend.chars := String.toList_ofList
  have hscheme : '?' ∉ t.backend.scheme := t.backend.isScheme.not_mem rfl
  have hauth : '?' ∉ t.backend.authority := fun h => (t.backend.isAuthority _ h).2.1 rfl
  unfold withTime ownQuery
  rw [htext, Address.chars, Address.queryText]
  cases t.backend.query with
  | some q => rw [if_pos (by simp)]
  | none =>
    have hno : '?' ∉ t.backend.scheme ++ "://".toList ++
        (t.backend.authority ++ (t.backend.path ++ [])) := by
      simp [hscheme, hauth, t.backend.no_query]
    rw [if_neg hno]
    simp [rawPair]

theorem urlParse_url : urlParse A (String.ofList t.url) =
    (pathUnescape (after '#' t.queryText)).map fun _ =>
      ⟨t.backend.host, String.ofList t.backend.decoded,
        String.ofList (before '#' t.queryText)⟩ := by
  have hends : EndsAuthority (t.backend.path ++ '?' :: t.queryText) := by
    rcases t.backend.shape with h | h
    · rw [h]
      exact Or.inr (Or.inr (Or.inl rfl))
    · refine Or.inr (Or.inl ?_)
      rw [List.head?_append, h]
      rfl
  have hpath : pathOf (t.backend.path ++ '?' :: t.queryText) = some t.backend.decoded := by
    rw [pathOf_append t.backend.no_query t.backend.no_fragment t.backend.unescape_path]
    simp [pathOf, before, pathUnescape]
  have hquery : queryOf (t.backend.path ++ '?' :: t.queryText) = before '#' t.queryText := by
    rw [Repeater.queryOf_path]
    rfl
  have hfrag : after '#' (t.backend.path ++ '?' :: t.queryText) = after '#' t.queryText := by
    rw [after_append_of_not_mem t.backend.no_fragment]
    rfl
  rw [url, urlParse_authority A t.backend.isScheme t.backend.isAuthority hends,
    t.backend.parse_host, hpath, hquery, hfrag]
  rfl

theorem schemeOf_url : schemeOf t.url = String.ofList (t.backend.scheme.map Char.toLower) := by
  have hfrag : '#' ∉ t.backend.scheme ++ "://".toList := by
    simp [t.backend.isScheme.not_mem (show isSchemeChar '#' = false from rfl)]
  rw [schemeOf, url, before_append_of_not_mem hfrag, List.append_assoc]
  show (match getscheme (t.backend.scheme ++ ':' :: _) with
    | some (scheme, _) => String.ofList (scheme.map Char.toLower)
    | none => "") = _
  rw [getscheme_append t.backend.isScheme]

/-! ### What the handler comes to -/

theorem put_eq_build : put A t.server t.r =
    build A t.server.now ⟨t.method, t.backend.text⟩ t.vars t.r.formValue := by
  simp only [put, t.decoded, t.info, t.vars_eq]

theorem put_eq (h : ¬ t.Missing) : put A t.server t.r =
    match pathUnescape (after '#' t.queryText) with
    | some _ => .sent (t.outgoing (before '#' t.queryText))
    | none => .answered (.printf ("parse " ++ String.ofList t.url)) := by
  have hvals : ∀ v ∈ t.vars, ¬ (t.r.formValue v.name = "" ∧ v.required = true) :=
    fun v hv hm => h ⟨v, hv, hm⟩
  have hurl : (t.backend.scheme ++ "://".toList ++
      (t.backend.authority ++ (t.backend.path ++ '?' :: t.ownQuery))) ++
        spliced (pairsAt t.r.formValue postionURI t.vars) = t.url := by
    simp [url, queryText, Case.entered]
  have hscheme : String.ofList (t.backend.scheme.map Char.toLower) ≠ "" := by
    rcases t.isHttp with h | h
    · rw [h]
      decide
    · rw [h]
      decide
  rw [t.put_eq_build, build, t.withTime_backend, fill_eq t.r.formValue hvals]
  simp only [drafted, hurl, t.urlParse_url]
  cases pathUnescape (after '#' t.queryText) with
  | none => rfl
  | some x =>
    simp only [Option.map_some, t.schemeOf_url, if_neg hscheme, String.toList_ofList]
    rfl

theorem sent_eq {o : Outgoing} (h : ¬ t.Missing) (ho : put A t.server t.r = .sent o) :
    o = t.outgoing (before '#' t.queryText) := by
  rw [t.put_eq h] at ho
  split at ho
  · exact (Run.sent.inj ho).symm
  · cases ho

theorem put_of_no_fragment (h : ¬ t.Missing) (hno : '#' ∉ t.queryText) :
    put A t.server t.r = .sent (t.outgoing t.queryText) := by
  rw [t.put_eq h, after_of_not_mem hno, before_of_not_mem hno]
  rfl

end Run

end Case

end Doodle.Manager.TestRun
