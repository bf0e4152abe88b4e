/-
  The body of a request through `Validate` of `repeater/repeater.go`.

  `HttpRequest` is `http.Request` as `Validate` finds and changes it: what is left to read of the
  body, and the form, which is nil until it is parsed. `NetHttp` is what is left open of
  `net/http`: `ParseForm` reads the body of a url-encoded POST, PUT or PATCH, and `FormValue` parses
  a form that is still nil, a multipart one too, which reads the body.

  `parseForm` puts the body back before the loop, and then the form is not nil: no `FormValue` of the
  loop reads the body, also of a multipart request. So the loop is the one of `Validate.lean` on
  what `Input` shows of the request (`view`), and it changes the headers and the form only.

  * `Validation.validateVars_eq`: the loop over a request in terms of the loop over its view.
  * `Validation.contents_validate`: after an accepted request the body can be read as it came.
-/
import Doodle.Go.Query
import Doodle.Repeater.Gateway
import Doodle.Repeater.Validate

namespace Doodle.Repeater

open Doodle.Go

/-! ## `net/http` -/

/-- What `Content-Type` says of a body; a multipart form has a boundary. -/
inductive Content where
  | urlencoded
  | multipart
  | other
  deriving DecidableEq, Repr

/-- The values of a key, in order. -/
def valuesOf (pairs : List (String × String)) (k : String) : List String :=
  (pairs.filter fun kv => kv.1 == k).map Prod.snd

/-- `http.CanonicalHeaderKey`, `mime.ParseMediaType`, and the fields of a multipart body. -/
structure NetHttp where
  canonical : String → String
  mediaType : String → Except String Content
  readForm : List UInt8 → Option (List (String × String))

/-- A request as the server hands it over: what is left to read of its body, and the error in
    which reading it ends. -/
structure Message where
  method : String
  path : UrlPath
  rawQuery : ByteText
  header : String → List String
  body : List UInt8
  bodyErr : Option String

/-- `http.Request`, with `req.Form`. -/
structure HttpRequest extends Message where
  form : Option (String → List String)

/-- Nothing is parsed yet. -/
def Message.received (m : Message) : HttpRequest := ⟨m, none⟩

/-- Reading a nil map finds nothing. -/
def HttpRequest.values (req : HttpRequest) : String → List String := req.form.getD fun _ => []

/-- What reading the body yields. -/
def Message.contents (m : Message) : List UInt8 × Option String := (m.body, m.bodyErr)

/-- `URL.Query()` -/
def Message.query (m : Message) : String → List String :=
  valuesOf (parseQuery m.rawQuery.text.toList).pairs

/-- One character per byte. -/
def bodyText (body : List UInt8) : List Char := body.map fun b => Char.ofNat b.toNat

namespace NetHttp

/-- `10 << 20` -/
def maxFormSize : Nat := 10485760

def escapeErr (err : Bool) : Option String := if err then some "invalid URL escape" else none

section Http

variable (H : NetHttp)

/-- Without a `Content-Type` the body is no form. -/
def content (header : String → List String) : Except String Content :=
  if firstValue (header "Content-Type") = "" then .ok .other
  else H.mediaType (firstValue (header "Content-Type"))

/-- `parsePostForm`, of a body in memory. -/
def parsePostForm (req : HttpRequest) : (List (String × String) × Option String) × HttpRequest :=
  if req.method = "POST" ∨ req.method = "PUT" ∨ req.method = "PATCH" then
    match H.content req.header with
    | .error e => (([], some e), req)
    | .ok .urlencoded =>
      let left := { req with body := req.body.drop (maxFormSize + 1) }
      if maxFormSize < req.body.length then (([], some "http: POST too large"), left)
      else
        let vs := parseQuery (bodyText req.body)
        ((vs.pairs, escapeErr vs.err), left)
    | .ok _ => (([], none), req)
  else (([], none), req)

/-- `Request.ParseForm`: the fields of the body, then those of the query. -/
def parseForm (req : HttpRequest) : Option String × HttpRequest :=
  match req.form with
  | some _ => (none, req)
  | none =>
    let ((post, err), req') := H.parsePostForm req
    let query := parseQuery req.rawQuery.text.toList
    (err.or (escapeErr query.err),
      { req' with form := some fun k => valuesOf post k ++ valuesOf query.pairs k })

/-- `Request.ParseMultipartForm`, of a form that is nil. -/
def parseMultipartForm (req : HttpRequest) : HttpRequest :=
  match H.parseForm req with
  | (some _, req) => req
  | (none, req) =>
    match H.content req.header with
    | .ok .multipart =>
      match H.readForm req.body with
      | some ps =>
        { req with body := [], form := req.form.map fun form k => form k ++ valuesOf ps k }
      | none => { req with body := [] }
    | _ => req

/-- `Request.FormValue` -/
def formValue (req : HttpRequest) (name : String) : String × HttpRequest :=
  let req := if req.form.isNone then H.parseMultipartForm req else req
  (firstValue (req.values name), req)

end Http

end NetHttp

/-! ## `Validate` -/

namespace Validation

section Model

variable (H : NetHttp)

def parseForm (vars : List Variable) (req : HttpRequest) : Option Err × HttpRequest :=
  if vars.any fun v => v.postion = postionFORM then
    match req.bodyErr with
    | some e => (some (.text e), { req with body := [] })
    | none =>
      match H.parseForm req with
      | (some e, req') => (some (.text e), req')
      | (none, req') => (none, { req' with body := req.body })
  else (none, req)

/-- The value of a variable, and the request after reading it. -/
def valueOf (req : HttpRequest) (v : Variable) : String × HttpRequest :=
  if v.postion = postionURI then (firstValue (req.query v.name), req)
  else if v.postion = postionFORM then H.formValue req v.name
  else if v.postion = postionHEADER then (firstValue (req.header (H.canonical v.name)), req)
  else ("", req)

/-- In the query only a copy is changed. -/
def delValue (req : HttpRequest) (v : Variable) : HttpRequest :=
  if v.postion = postionURI then req
  else if v.postion = postionHEADER then
    { req with header := fun k => if k = H.canonical v.name then [] else req.header k }
  else if v.postion = postionFORM then
    { req with form := req.form.map fun form k => if k = v.name then [] else form k }
  else req

/-- The loop of `Validate`. -/
def validateVars : List Variable → HttpRequest → Res Err Unit × HttpRequest
  | [], req => (.ok (), req)
  | v :: vars, req =>
    let (val, req) := valueOf H req v
    match validateValue v val with
    | .ok true => validateVars vars (delValue H req v)
    | .ok false => validateVars vars req
    | .err e => (.err e, req)
    | .panic p => (.panic p, req)

/-- What `Validate` does once it has the variables. -/
def validateWith (vars : List Variable) (req : HttpRequest) : Res Err Unit × HttpRequest :=
  match parseForm H vars req with
  | (some e, req) => (.err e, req)
  | (none, req) => validateVars H vars req

def validate (srv : Server) (tb : Tables) (tg ta : Int) (dc : DbCache) (iface : Interface)
    (req : HttpRequest) : Res Err Unit × HttpRequest × DbCache :=
  match getVariable srv tb tg ta dc iface.id with
  | (.err e, dc) => (.err e, req, dc)
  | (.panic p, dc) => (.panic p, req, dc)
  | (.ok vars, dc) =>
    let (res, req) := validateWith H vars req
    (res, req, dc)

end Model

end Validation

/-! ## The loop reads the request through its view -/

namespace Validation

section View

variable (H : NetHttp)

/-- What the loop sees of a request. -/
def view (req : HttpRequest) : Input := ⟨req.query, req.header, req.values, none⟩

/-- What the loop changes of it. -/
def withView (req : HttpRequest) (inp : Input) : HttpRequest :=
  { req with header := inp.header, form := req.form.map fun _ => inp.form }

theorem withView_view (req : HttpRequest) : withView req (view req) = req := by
  obtain ⟨m, _ | form⟩ := req <;> rfl

theorem withView_withView (req : HttpRequest) (inp inp' : Input) :
    withView (withView req inp) inp' = withView req inp' := by
  obtain ⟨m, _ | form⟩ := req <;> rfl

/-- The form was parsed, if there is a variable in it. -/
def Parsed (vars : List Variable) (req : HttpRequest) : Prop :=
  ∀ v ∈ vars, v.postion = postionFORM → ∃ form, req.form = some form

variable {req : HttpRequest} {v : Variable}
  (h : v.postion = postionFORM → ∃ form, req.form = some form)

include h in
/-- No `FormValue` parses anything. -/
theorem valueOf_eq : valueOf H req v = (valueAt H.canonical (view req) v, req) := by
  unfold valueOf valueAt view
  by_cases hf : v.postion = postionFORM
  · obtain ⟨form, hform⟩ := h hf
    simp [hf, NetHttp.formValue, hform, postionURI, postionFORM]
  · by_cases hu : v.postion = postionURI
    · simp [hu]
    · simp only [if_neg hu, if_neg hf]
      split <;> rfl

theorem delValue_eq (req : HttpRequest) (v : Variable) :
    delValue H req v = withView req (Repeater.delValue H.canonical (view req) v) := by
  unfold delValue Repeater.delValue
  split
  · exact (withView_view req).symm
  · split
    · obtain ⟨m, _ | form⟩ := req <;> rfl
    · split
      · obtain ⟨m, _ | form⟩ := req <;> rfl
      · exact (withView_view req).symm

include h in
theorem view_delValue :
    view (delValue H req v) = Repeater.delValue H.canonical (view req) v := by
  unfold delValue Repeater.delValue
  split
  · rfl
  · split
    · rfl
    · split
      · next hf =>
        obtain ⟨form, hform⟩ := h hf
        simp only [view, HttpRequest.values, hform]
        rfl
      · rfl

omit h in
/-- The loop over a request is the loop over its view. -/
theorem validateVars_eq (vars : List Variable) : ∀ req, Parsed vars req → validateVars H vars req =
    ((Repeater.validateVars H.canonical vars (view req)).1,
      withView req (Repeater.validateVars H.canonical vars (view req)).2) := by
  induction vars with
  | nil =>
    intro req _
    rw [validateVars, Repeater.validateVars, withView_view]
  | cons v vars ih =>
    intro req hparsed
    obtain ⟨hv, hvars⟩ := List.forall_mem_cons.mp hparsed
    simp only [validateVars, Repeater.validateVars, valueOf_eq H hv]
    cases validateValue v (valueAt H.canonical (view req) v) with
    | ok del =>
      cases del with
      | false => exact ih req hvars
      | true =>
        have hdel : Parsed vars (delValue H req v) := fun w hw hf => by
          obtain ⟨form, hform⟩ := hvars w hw hf
          rw [delValue_eq, withView, hform]
          exact ⟨_, rfl⟩
        simp only [ih _ hdel, view_delValue H hv]
        rw [delValue_eq, withView_withView]
    | err e => simp only [withView_view]
    | panic p => simp only [withView_view]

end View

/-! ## `Validate` as a whole -/

section Whole

variable (H : NetHttp) (m : Message)

/-- The request after `ParseForm`, its body put back. -/
def restored : HttpRequest := { (H.parseForm m.received).2 with body := m.body }

/-- The request as `Validate` sees it. -/
def input : Input :=
  ⟨m.query, m.header, (restored H m).values, m.bodyErr.or (H.parseForm m.received).1⟩

theorem parsePostForm_frame (req : HttpRequest) : ∃ body,
    (H.parsePostForm req).2 = { req with body := body } := by
  unfold NetHttp.parsePostForm
  split
  · split
    · exact ⟨req.body, rfl⟩
    · dsimp only
      split
      · exact ⟨req.body.drop (NetHttp.maxFormSize + 1), rfl⟩
      · exact ⟨req.body.drop (NetHttp.maxFormSize + 1), rfl⟩
    · exact ⟨req.body, rfl⟩
  · exact ⟨req.body, rfl⟩

/-- With the body put back, `ParseForm` has changed the form only. -/
theorem restored_frame : ∃ form, restored H m = ⟨m, some form⟩ := by
  obtain ⟨body, hp⟩ := parsePostForm_frame H m.received
  refine ⟨(H.parseForm m.received).2.values, ?_⟩
  simp only [restored, NetHttp.parseForm, Message.received] at hp ⊢
  rw [hp]
  rfl

theorem parseForm_of_mem {vars : List Variable} (h : ∃ v ∈ vars, v.postion = postionFORM) :
    ((input H m).formErr = none ∧ parseForm H vars m.received = (none, restored H m)) ∨
      ∃ e req, (input H m).formErr = some e ∧
        parseForm H vars m.received = (some (.text e), req) := by
  have hany : (vars.any fun v => decide (v.postion = postionFORM)) = true := by simpa using h
  unfold parseForm input restored
  rw [if_pos hany]
  cases hb : m.bodyErr with
  | some e =>
    exact Or.inr ⟨e, { m.received with body := [] }, rfl, by simp only [Message.received, hb]⟩
  | none =>
    cases hp : H.parseForm m.received with
    | mk err req =>
      cases err with
      | none => exact Or.inl ⟨rfl, by simp only [Message.received, hb]⟩
      | some e => exact Or.inr ⟨e, req, rfl, by simp only [Message.received, hb]⟩

theorem parseForm_of_not_mem {vars : List Variable} (h : ¬ ∃ v ∈ vars, v.postion = postionFORM)
    (req : HttpRequest) : parseForm H vars req = (none, req) := by
  have hany : ¬ (vars.any fun v => decide (v.postion = postionFORM)) = true := by simpa using h
  rw [parseForm, if_neg hany]

/-- The request the loop starts from. -/
def start (vars : List Variable) : HttpRequest :=
  if vars.any fun v => v.postion = postionFORM then restored H m else m.received

theorem start_of_mem {vars : List Variable} (h : ∃ v ∈ vars, v.postion = postionFORM) :
    start H m vars = restored H m := if_pos (by simpa using h)

theorem start_of_not_mem {vars : List Variable} (h : ¬ ∃ v ∈ vars, v.postion = postionFORM) :
    start H m vars = m.received := if_neg (by simpa using h)

theorem start_frame (vars : List Variable) : (∃ form, start H m vars = ⟨m, form⟩) ∧
    Parsed vars (start H m vars) := by
  by_cases h : ∃ v ∈ vars, v.postion = postionFORM
  · obtain ⟨form, hr⟩ := restored_frame H m
    rw [start_of_mem H m h, hr]
    exact ⟨⟨some form, rfl⟩, fun _ _ _ => ⟨form, rfl⟩⟩
  · rw [start_of_not_mem H m h]
    exact ⟨⟨none, rfl⟩, fun v hv hf => absurd ⟨v, hv, hf⟩ h⟩

/-- `Validate` accepts a request when its form parses, if it is needed, and the loop accepts it. -/
theorem validateWith_cases (vars : List Variable) :
    (FormParses vars (input H m) ∧ validateWith H vars m.received =
        validateVars H vars (start H m vars)) ∨
      (¬ FormParses vars (input H m) ∧
        ∃ e req, validateWith H vars m.received = (.err e, req)) := by
  unfold validateWith FormParses
  by_cases h : ∃ v ∈ vars, v.postion = postionFORM
  · obtain ⟨hnone, hp⟩ | ⟨e, req, hsome, hp⟩ := parseForm_of_mem H m h
    · exact Or.inl ⟨fun _ => hnone, by rw [hp, start_of_mem H m h]⟩
    · refine Or.inr ⟨fun hall => ?_, .text e, req, by rw [hp]⟩
      rw [hall h] at hsome
      cases hsome
  · exact Or.inl ⟨fun h' => absurd h' h, by
      rw [parseForm_of_not_mem H h, start_of_not_mem H m h]⟩

section Accepted

variable {H m} {srv : Server} {tb : Tables} {tg ta : Int} {dc : DbCache} {iface : Interface}

theorem validate_eq {vars : List Variable}
    (hget : (getVariable srv tb tg ta dc iface.id).1 = .ok vars) :
    (validate H srv tb tg ta dc iface m.received).1 = (validateWith H vars m.received).1 ∧
      (validate H srv tb tg ta dc iface m.received).2.1 = (validateWith H vars m.received).2 := by
  unfold validate
  generalize getVariable srv tb tg ta dc iface.id = x at hget
  obtain ⟨y, dc'⟩ := x
  obtain rfl : y = .ok vars := hget
  exact ⟨rfl, rfl⟩

variable (hok : (validate H srv tb tg ta dc iface m.received).1 = .ok ())
include hok

/-- An accepted request went through the whole loop, which changed its headers and its form. -/
theorem validate_of_ok {vars : List Variable}
    (hget : (getVariable srv tb tg ta dc iface.id).1 = .ok vars) :
    (Repeater.validateVars H.canonical vars (view (start H m vars))).1 = .ok () ∧
      (validate H srv tb tg ta dc iface m.received).2.1 = withView (start H m vars)
        (Repeater.validateVars H.canonical vars (view (start H m vars))).2 := by
  obtain ⟨h1, h2⟩ := validate_eq (H := H) (m := m) hget
  rw [h1] at hok
  rw [h2]
  obtain ⟨-, hw⟩ | ⟨-, e, req, hw⟩ := validateWith_cases H m vars
  · rw [hw, validateVars_eq H vars _ (start_frame H m vars).2] at hok ⊢
    exact ⟨hok, rfl⟩
  · rw [hw] at hok
    cases hok

theorem getVariable_of_ok : ∃ vars, (getVariable srv tb tg ta dc iface.id).1 = .ok vars := by
  unfold validate at hok
  generalize getVariable srv tb tg ta dc iface.id = x at hok ⊢
  obtain ⟨vars | e | p, dc'⟩ := x
  · exact ⟨vars, rfl⟩
  · cases hok
  · cases hok

/-- After an accepted request, whatever its content type and wherever its variables stand, the
    body is there to be read as it came. -/
theorem contents_validate :
    (validate H srv tb tg ta dc iface m.received).2.1.contents = m.contents := by
  obtain ⟨vars, hget⟩ := getVariable_of_ok hok
  obtain ⟨-, hreq⟩ := validate_of_ok hok hget
  obtain ⟨⟨form, hstart⟩, -⟩ := start_frame H m vars
  rw [hreq, hstart]
  rfl

end Accepted

end Whole

/-! ## A multipart request -/

/-- The field `a` with the value `1`. -/
def multipartBody : List UInt8 :=
  "--b\r\nContent-Disposition: form-data; name=\"a\"\r\n\r\n1\r\n--b--\r\n".toList.map
    fun c => c.toNat.toUInt8

/-- Header names as they are, and no multipart body but `multipartBody`. -/
def plainHttp : NetHttp where
  canonical := id
  mediaType t :=
    if t = "multipart/form-data; boundary=b" then .ok .multipart
    else if t = "application/x-www-form-urlencoded" then .ok .urlencoded else .ok .other
  readForm body := if body = multipartBody then some [("a", "1")] else none

theorem isBytes_empty : IsBytes "" := by decide

theorem shape_path : "/s/i" = "" ∨ "/s/i" = "*" ∨ "/s/i".toList.head? = some '/' := by decide

/-- A POST with a multipart body and no query. -/
def multipartPost : Message :=
  ⟨"POST", ⟨"/s/i", shape_path⟩, ⟨"", isBytes_empty⟩,
    fun k => if k = "Content-Type" then ["multipart/form-data; boundary=b"] else [],
    multipartBody, none⟩

/-- The field `a` of the form, which may be left out. -/
def formField : VariableRow := ⟨1, postionFORM, "a", "string", 0⟩

/-- The interface the variables of `onlyVars` are of. -/
def firstInterface : Interface := ⟨1, 0, "", "", "", ⟨1, false, 0⟩⟩

/-- `Validate` for an interface with the variable `formField`. -/
def validatePost (m : Message) : Res Err Unit × HttpRequest × DbCache :=
  validate plainHttp (fun _ => true) (onlyVars [formField]) 0 0 (initDC (fun _ => true) 0)
    firstInterface m.received

/-- The field is looked for in the form and not found, and the body is still there. -/
theorem contents_validate_multipart : (validatePost multipartPost).1 = .ok () ∧
    (validatePost multipartPost).2.1.contents = (multipartBody, none) := by
  have hok : (validatePost multipartPost).1 = .ok () :=
    (validate_eq (getVariable_onlyVars [formField])).1.trans (by decide)
  exact ⟨hok, contents_validate hok⟩

end Validation

end Doodle.Repeater
