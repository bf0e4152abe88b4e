/-
  The HTTP server of `github.com/dearcode/crab/http/server`: what is registered, and which handler
  a request gets.

  Handlers for a whole URL are in a map, under the method and the URL. Handlers for the beginning
  of a URL are in a b-tree, sorted by method and URL with the greatest first, and a request walks
  through it from its own method and URL on until the first entry that it begins with. The plain
  account is a `Table`, two lists in the order of registration. A request gets what is registered
  for all of it, or else, of what is registered for the longest beginning of it, the first with a
  matching expression.

  * `getHandler_eq`: whatever is registered, the server and the table fail alike and find the same.

  Go's package `regexp` is a parameter. Texts are compared by characters, which for UTF-8 is the
  order by bytes. The filter is the default one: nothing sets another.
-/
import Doodle.Go.Result
import Doodle.Go.Strings
import Doodle.Google.Btree
import Mathlib.Data.List.MinMax
import Mathlib.Data.String.Basic

namespace Doodle.Crab.Http

open Doodle.Go Doodle.Google.Btree Doodle.Lib

/-! ## The model -/

/-- Package `regexp`. -/
structure Regexps where
  Exp : Type
  compile : String → Option Exp
  matchString : Exp → String → Bool
  findAllStringSubmatch : Exp → String → List (List String)

/-- `strings.HasPrefix` -/
def hasPrefix (s begin : String) : Bool := begin.toList.isPrefixOf s.toList

/-- `\w` -/
def isWord (c : Char) : Bool := c.isAlphanum || c == '_'

/-- The key that a text begins with, an opening brace, a word and a closing brace. -/
def keyAt : List Char → Option String
  | '\x7b' :: cs =>
    if (cs.dropWhile isWord).head? = some '\x7d' then some (String.ofList (cs.takeWhile isWord))
    else none
  | _ => none

/-- The keys of a text and the characters between them, after so many characters. -/
def pieces : Nat → List Char → List (Char ⊕ String)
  | _, [] => []
  | skip + 1, _ :: cs => pieces skip cs
  | 0, c :: cs =>
    match keyAt (c :: cs) with
    | some key => .inr key :: pieces (key.length + 1) cs
    | none => .inl c :: pieces 0 cs

section Model

variable (R : Regexps) (H : Type)

/-- `handler` -/
structure Handler where
  path : String
  call : H

/-- `handlerRegexp` -/
structure HandlerRegexp extends Handler H where
  keys : List String
  exp : R.Exp

/-- `prefix` -/
structure Prefix where
  path : String
  exps : List (HandlerRegexp R H)

/-- `httpServer` -/
structure HttpServer where
  path : String → Option (Handler H)
  prefixes : BTree (Prefix R H)

/-- What reflection shows of a method: other arguments than a handler's, a handler's arguments but
    not its type (the method has a result), or a handler. -/
inductive Func where
  | other
  | mistyped
  | handler (call : H)

/-- What reflection shows of an object; its methods are sorted by name. -/
structure Obj where
  isPtr : Bool
  typeString : String
  methods : List (String × Func H)

/-- A call of `RegisterHandler`, or of `Register`, `RegisterPath` and `RegisterPrefix`. -/
inductive Registration where
  | handler (call : H) (method path : String)
  | object (obj : Obj H) (path : String) (isPrefix : Bool)

/-- The values in the context of a request, the last first. -/
abbrev Context := List (String × String)

variable {R H}

/-- `prefix.Less` -/
def less (p bi : Prefix R H) : Bool := bi.path < p.path

/-- `newHTTPServer` -/
def newHTTPServer : HttpServer R H := ⟨fun _ => none, BTree.new 3 (by decide)⟩

/-- `newHandlerRegexp`; it panics on an expression that is none. -/
def newHandlerRegexp (h : Handler H) : Option (HandlerRegexp R H) :=
  let parts := pieces 0 h.path.toList
  let np := parts.flatMap fun x => x.elim (fun c => [c]) fun _ => "(.+)".toList
  (R.compile (String.ofList np)).map fun exp => ⟨h, parts.filterMap Sum.getRight?, exp⟩

/-- The path of a prefix ends before its first key. -/
def prefixPath (method path : String) : String :=
  match index path "\x7b" with
  | some idx => if 0 < idx then method ++ sliceTo path idx else method ++ path
  | none => method ++ path

/-- A round of the loop of `register` for a prefix; `none` is a panic. -/
def HttpServer.addPrefix (s : HttpServer R H) (path : String) (h : Handler H) :
    Option (HttpServer R H) := do
  let p : Prefix R H := ⟨path, []⟩
  let p ← if ← s.prefixes.has less p then (s.prefixes.get less p).join else some p
  let exp ← newHandlerRegexp h
  let (prefixes, _) ← s.prefixes.replaceOrInsert less ⟨p.path, p.exps ++ [exp]⟩
  return { s with prefixes := prefixes }

def HttpServer.addPath (s : HttpServer R H) (h : Handler H) : HttpServer R H :=
  { s with path := fun k => if k = h.path then some h else s.path k }

/-- `exist url:%v %v` -/
def existUrl (method path : String) : String := "exist url:" ++ method ++ " " ++ path

def httpMethods : List String := ["POST", "GET", "PUT", "DELETE"]

/-- The loop of `register`; the type assertion on the method panics. -/
def registerMethods (path : String) (isPrefix : Bool) :
    List (String × Func H) → HttpServer R H → HttpServer R H × Res String Unit
  | [], s => (s, .ok ())
  | (method, func) :: ms, s =>
    if method ∈ httpMethods then
      match func with
      | .other => registerMethods path isPrefix ms s
      | .mistyped => (s, .panic "interface conversion")
      | .handler call =>
        let h : Handler H := ⟨method ++ path, call⟩
        if isPrefix then
          match s.addPrefix (prefixPath method path) h with
          | none => (s, .panic "regexp")
          | some s => registerMethods path isPrefix ms s
        else if (s.path h.path).isSome then (s, .err (existUrl method path))
        else registerMethods path isPrefix ms (s.addPath h)
    else registerMethods path isPrefix ms s

/-- `NameToPath` with depth 0, which cuts nothing off -/
def nameToPath (name : String) : String :=
  String.ofList (name.toList.map fun c => if c = '.' ∨ c = '*' then '/' else c)

/-- The path that `register` goes by. -/
def registeredPath (obj : Obj H) (path : String) : String :=
  let path := if path = "" then nameToPath obj.typeString ++ "/" else path
  if hasPrefix path "/" then path else "/" ++ path

/-- `RegisterHandler` and `register` -/
def HttpServer.register (s : HttpServer R H) :
    Registration H → HttpServer R H × Res String Unit
  | .handler call method path =>
    let h : Handler H := ⟨method ++ path, call⟩
    if (s.path h.path).isSome then (s, .err (existUrl method path)) else (s.addPath h, .ok ())
  | .object obj path isPrefix =>
    if obj.isPtr then registerMethods (registeredPath obj path) isPrefix obj.methods s
    else (s, .err "need ptr")

/-- `context.WithValue(ctx, ur.keys[i], v[1])` -/
def addValue (keys : List String) (ctx : Context) (v : List String × Nat) : Option Context := do
  let key ← keys[v.2]?
  let value ← v.1[1]?
  return (key, value) :: ctx

/-- `parseRequestValues`; it panics when there are more matches than keys. -/
def parseRequestValues (path : String) (ur : HandlerRegexp R H) : Option Context :=
  (R.findAllStringSubmatch ur.exp path).zipIdx.foldlM (addValue ur.keys) []

/-- The loop over the expressions of a prefix. -/
def callOf (path : String) (exps : List (HandlerRegexp R H)) :
    Option (Option (H × Option Context)) :=
  match exps.find? fun ue => R.matchString ue.exp path with
  | none => some none
  | some ue =>
    if ue.keys.length = 0 then some (some (ue.call, none))
    else (parseRequestValues path ue).map fun ctx => some (ue.call, some ctx)

/-- `getHandler`: the function and the context, nil when there is none, or a panic. -/
def HttpServer.getHandler (s : HttpServer R H) (method path : String) :
    Option (Option (H × Option Context)) :=
  let path := method ++ path
  match s.path path with
  | some i => some (some (i.call, none))
  | none => do
    let (p, ok) ← s.prefixes.ascendGreaterOrEqual less ⟨path, []⟩
      (fun item _ => ((item, hasPrefix path item.path), !hasPrefix path item.path))
      (⟨"", []⟩, false)
    if !ok then return none
    callOf path p.exps

/-- One registration after the other. Their errors are for the callers; a panic ends the program. -/
def HttpServer.registers : List (Registration H) → HttpServer R H → Option (HttpServer R H)
  | [], s => some s
  | r :: rs, s =>
    match s.register r with
    | (_, .panic _) => none
    | (s, _) => registers rs s

end Model

/-! ## The plain account -/

section Plain

variable (R : Regexps) (H : Type)

/-- What is registered, in that order. -/
structure Table where
  exact : List (Handler H)
  prefixed : List (String × HandlerRegexp R H)

variable {R H}

def Func.candidate (path : String) : Func H → Option (Option (Handler H))
  | .other => none
  | .mistyped => some none
  | .handler call => some (some ⟨path, call⟩)

/-- The methods of an object that are registered, one of the wrong type without a handler. -/
def candidates (path : String) (methods : List (String × Func H)) :
    List (String × Option (Handler H)) :=
  methods.filterMap fun m =>
    if m.1 ∈ httpMethods then (m.2.candidate (m.1 ++ path)).map (m.1, ·) else none

/-- The longest of some texts. -/
def longest (ps : List String) : Option String := ps.argmax String.length

namespace Table

/-- The expressions for a beginning of URLs. -/
def expsAt (t : Table R H) (q : String) : List (HandlerRegexp R H) :=
  (t.prefixed.filter fun e => e.1 = q).map Prod.snd

def addPath (t : Table R H) (h : Handler H) : Table R H := { t with exact := t.exact ++ [h] }

def addPrefix (t : Table R H) (q : String) (e : HandlerRegexp R H) : Table R H :=
  { t with prefixed := t.prefixed ++ [(q, e)] }

/-- The candidates up to the first that cannot be registered. -/
def addAll (path : String) (isPrefix : Bool) :
    List (String × Option (Handler H)) → Table R H → Table R H × Res String Unit
  | [], t => (t, .ok ())
  | (_, none) :: _, t => (t, .panic "interface conversion")
  | (method, some h) :: hs, t =>
    if isPrefix then
      match newHandlerRegexp h with
      | none => (t, .panic "regexp")
      | some e => addAll path isPrefix hs (t.addPrefix (prefixPath method path) e)
    else if t.exact.any fun x => x.path = h.path then (t, .err (existUrl method path))
    else addAll path isPrefix hs (t.addPath h)

def register (t : Table R H) : Registration H → Table R H × Res String Unit
  | .handler call method path => t.addAll path false [(method, some ⟨method ++ path, call⟩)]
  | .object obj path isPrefix =>
    if obj.isPtr then
      t.addAll (registeredPath obj path) isPrefix (candidates (registeredPath obj path) obj.methods)
    else (t, .err "need ptr")

def registers : List (Registration H) → Table R H → Option (Table R H)
  | [], t => some t
  | r :: rs, t =>
    match t.register r with
    | (_, .panic _) => none
    | (t, _) => registers rs t

/-- What is registered for all of the URL, or the first match for the longest beginning of it. -/
def getHandler (t : Table R H) (method path : String) : Option (Option (H × Option Context)) :=
  let path := method ++ path
  match t.exact.find? fun h => h.path = path with
  | some h => some (some (h.call, none))
  | none =>
    match longest ((t.prefixed.map Prod.fst).filter (hasPrefix path)) with
    | none => some none
    | some q => callOf path (t.expsAt q)

end Table

end Plain

/-! ## The order of the beginnings -/

section Order

variable {R : Regexps} {H : Type}

theorem hasPrefix_iff {s p : String} : hasPrefix s p = true ↔ p.toList <+: s.toList := by
  simp [hasPrefix]

theorem lt_append_cons (l : List Char) (c : Char) (r : List Char) : l < l ++ c :: r := by
  induction l with
  | nil => exact List.nil_lt_cons c r
  | cons x l ih => exact List.cons_lt_cons_self.mpr ih

theorem lt_of_isPrefix {p q : String} (h : p.toList <+: q.toList) (hne : p ≠ q) : p < q := by
  rw [String.lt_iff_toList_lt]
  obtain ⟨r, hr⟩ := h
  cases r with
  | nil =>
    rw [List.append_nil] at hr
    exact absurd (String.toList_inj.mp hr) hne
  | cons c r =>
    rw [← hr]
    exact lt_append_cons _ c r

theorem strictWeak_less : StrictWeak (less : Prefix R H → Prefix R H → Bool) where
  irrefl p := by simp [less]
  trans := by
    intro a b c hab hbc
    simp only [less, decide_eq_true_eq] at hab hbc ⊢
    exact String.lt_trans hbc hab
  cotrans := by
    intro a c b hac
    simp only [less, decide_eq_true_eq] at hac ⊢
    by_contra hnot
    rw [not_or, String.not_lt, String.not_lt] at hnot
    exact String.not_le.mpr hac (String.le_trans hnot.1 hnot.2)

theorem same_less_iff {p q : Prefix R H} : same less p q = true ↔ p.path = q.path := by
  rw [same_eq_true]
  simp only [less, decide_eq_false_iff_not, String.not_lt]
  exact ⟨fun h => String.le_antisymm h.1 h.2, fun h => h ▸ ⟨String.le_refl _, String.le_refl _⟩⟩

end Order

/-! ## The server keeps the table -/

section Refinement

variable {R : Regexps} {H : Type} {s s' : HttpServer R H} {t t' : Table R H}

/-- The map has the whole URLs, and the well-formed tree one entry for each beginning. -/
structure Refines (s : HttpServer R H) (t : Table R H) : Prop where
  path : ∀ k, s.path k = t.exact.find? fun h => h.path = k
  wf : s.prefixes.Wf less
  mem : ∀ p, p ∈ s.prefixes.toList ↔ p.exps ≠ [] ∧ p.exps = t.expsAt p.path

theorem refines_new : Refines (newHTTPServer : HttpServer R H) ⟨[], []⟩ where
  path _ := rfl
  wf := BTree.wf_new 3 _
  mem p := by
    simp [newHTTPServer, BTree.toList, BTree.new, Table.expsAt]

theorem expsAt_addPrefix (q q' : String) (e : HandlerRegexp R H) :
    (t.addPrefix q e).expsAt q' = t.expsAt q' ++ if q = q' then [e] else [] := by
  by_cases h : q = q' <;> simp [Table.expsAt, Table.addPrefix, h]

theorem Refines.taken (h : Refines s t) (k : String) :
    (t.exact.any fun x => x.path = k) = (s.path k).isSome := by
  rw [h.path, Bool.eq_iff_iff, List.any_eq_true, List.find?_isSome]

/-- The entry for a beginning of URLs, or that there is none. -/
theorem Refines.find (h : Refines s t) (q : String) :
    (s.prefixes.toList.find? fun y => same less y ⟨q, []⟩) =
      if t.expsAt q = [] then none else some ⟨q, t.expsAt q⟩ := by
  split
  case isTrue hnil =>
    refine List.find?_eq_none.mpr fun p hp hsame => ?_
    obtain ⟨hne, hexps⟩ := (h.mem p).mp hp
    rw [hexps, same_less_iff.mp hsame] at hne
    exact hne hnil
  case isFalse hne =>
    have hmem := (h.mem ⟨q, t.expsAt q⟩).mpr ⟨hne, rfl⟩
    obtain ⟨low, high, hcut⟩ := List.append_of_mem hmem
    have hord := h.wf.ordered
    rw [hcut] at hord ⊢
    exact find?_same strictWeak_less hord (same_less_iff.mpr rfl)

theorem Refines.addPath (h : Refines s t) (x : Handler H) (hfree : s.path x.path = none) :
    Refines (s.addPath x) (t.addPath x) where
  path k := by
    rw [Table.addPath, List.find?_append, ← h.path]
    simp only [HttpServer.addPath]
    by_cases hk : k = x.path
    · subst hk
      simp [hfree]
    · have hk' : x.path ≠ k := fun he => hk he.symm
      simp [hk, hk']
  wf := h.wf
  mem := h.mem

theorem Refines.addPrefix (h : Refines s t) (q : String) {x : Handler H} {e : HandlerRegexp R H}
    (he : newHandlerRegexp x = some e) :
    ∃ s', s.addPrefix q x = some s' ∧ Refines s' (t.addPrefix q e) := by
  obtain ⟨prefixes, out, hinsert, hwf, hplaces⟩ :=
    BTree.replaceOrInsert_spec strictWeak_less h.wf ⟨q, t.expsAt q ++ [e]⟩
  refine ⟨{ s with prefixes := prefixes }, ?_, h.path, hwf, fun p => ?_⟩
  · have hget := BTree.get_spec strictWeak_less h.wf ⟨q, []⟩
    have hhas := BTree.has_spec strictWeak_less h.wf ⟨q, []⟩
    rw [h.find q] at hget hhas
    by_cases hnil : t.expsAt q = []
    · simp only [hnil, if_true, Option.isSome_none, List.nil_append] at hget hhas hinsert
      simp [HttpServer.addPrefix, hhas, he, hinsert]
    · simp only [hnil, if_false, Option.isSome_some] at hget hhas
      simp [HttpServer.addPrefix, hhas, hget, he, hinsert]
  · rw [hplaces.mem_iff, h.mem, expsAt_addPrefix]
    obtain ⟨path, exps⟩ := p
    by_cases hq : q = path
    · have hsame : same less (⟨path, exps⟩ : Prefix R H) ⟨q, t.expsAt q ++ [e]⟩ = true :=
        same_less_iff.mpr hq.symm
      subst hq
      simp only [hsame, Prefix.mk.injEq, true_and, Bool.true_eq_false, and_false, or_false, if_true]
      exact ⟨fun he => ⟨by simp [he], he⟩, And.right⟩
    · have hsame : same less (⟨path, exps⟩ : Prefix R H) ⟨q, t.expsAt q ++ [e]⟩ = false :=
        Bool.eq_false_iff.mpr fun h => hq (same_less_iff.mp h).symm
      have hq' : path ≠ q := fun he => hq he.symm
      simp only [hsame, Prefix.mk.injEq, hq, hq', if_false, List.append_nil, false_and, false_or,
        and_true]

theorem addPrefix_none {q : String} {x : Handler H}
    (hx : (newHandlerRegexp x : Option (HandlerRegexp R H)) = none) : s.addPrefix q x = none := by
  simp [HttpServer.addPrefix, hx]

theorem candidates_cons (path : String) (m : String × Func H) (ms : List (String × Func H)) :
    candidates path (m :: ms) = (if m.1 ∈ httpMethods then
      (m.2.candidate (m.1 ++ path)).map (m.1, ·) else none).toList ++ candidates path ms := by
  rw [candidates, List.filterMap_cons]
  cases (if m.1 ∈ httpMethods then (m.2.candidate (m.1 ++ path)).map (m.1, ·) else none) <;> rfl

/-- One candidate after the other. -/
theorem Refines.registerMethods (path : String) (isPrefix : Bool) :
    ∀ {ms : List (String × Func H)} {s : HttpServer R H} {t : Table R H}, Refines s t →
      (registerMethods path isPrefix ms s).2 = (t.addAll path isPrefix (candidates path ms)).2 ∧
        Refines (registerMethods path isPrefix ms s).1
          (t.addAll path isPrefix (candidates path ms)).1
  | [], _, _, h => ⟨rfl, h⟩
  | (method, func) :: ms, s, t, h => by
    rw [candidates_cons, Http.registerMethods.eq_def]
    by_cases hmethod : method ∈ httpMethods
    · simp only [if_pos hmethod]
      cases func with
      | other => exact h.registerMethods path isPrefix
      | mistyped => exact ⟨rfl, h⟩
      | handler call =>
        simp only [Func.candidate, Option.map_some, Option.toList_some, List.singleton_append,
          Table.addAll]
        cases isPrefix with
        | true =>
          cases he : (newHandlerRegexp ⟨method ++ path, call⟩ : Option (HandlerRegexp R H)) with
          | none =>
            simp only [addPrefix_none he, if_true]
            exact ⟨trivial, h⟩
          | some e =>
            obtain ⟨s', hs', h'⟩ := h.addPrefix (prefixPath method path) he
            simp only [hs', if_true]
            exact h'.registerMethods path true
        | false =>
          cases hfree : s.path (method ++ path) with
          | some _ =>
            simp only [h.taken, hfree, Bool.false_eq_true, if_false, Option.isSome_some, if_true]
            exact ⟨trivial, h⟩
          | none =>
            simp only [h.taken, hfree, Bool.false_eq_true, if_false, Option.isSome_none]
            exact (h.addPath ⟨method ++ path, call⟩ hfree).registerMethods path false
    · simp only [if_neg hmethod]
      exact h.registerMethods path isPrefix

theorem Refines.register (h : Refines s t) (r : Registration H) :
    (s.register r).2 = (t.register r).2 ∧ Refines (s.register r).1 (t.register r).1 := by
  cases r with
  | handler call method path =>
    simp only [HttpServer.register, Table.register, Table.addAll, h.taken, Bool.false_eq_true,
      if_false]
    cases hfree : s.path (method ++ path) with
    | some _ => exact ⟨rfl, h⟩
    | none => exact ⟨rfl, h.addPath ⟨method ++ path, call⟩ hfree⟩
  | object obj path isPrefix =>
    simp only [HttpServer.register, Table.register]
    by_cases hptr : obj.isPtr = true
    · simp only [hptr, if_true]
      exact h.registerMethods _ isPrefix
    · simp only [hptr, Bool.false_eq_true, if_false]
      exact ⟨trivial, h⟩

/-- One registration after the other. -/
theorem Refines.registers (h : Refines s t) (rs : List (Registration H)) :
    Option.Rel Refines (s.registers rs) (t.registers rs) := by
  induction rs generalizing s t with
  | nil => exact .some h
  | cons r rs ih =>
    obtain ⟨hres, h'⟩ := h.register r
    rw [HttpServer.registers, Table.registers]
    cases hs : s.register r with
    | mk s' res =>
      cases ht : t.register r with
      | mk t' res' =>
        rw [hs, ht] at hres h'
        obtain rfl : res = res' := hres
        cases res with
        | ok _ => exact ih h'
        | err _ => exact ih h'
        | panic _ => exact .none

/-! ## The walk finds the longest beginning -/

theorem expsAt_eq_nil_iff {q : String} : t.expsAt q = [] ↔ q ∉ t.prefixed.map Prod.fst := by
  rw [Table.expsAt, List.map_eq_nil_iff, List.filter_eq_nil_iff]
  simp only [decide_eq_true_eq, List.mem_map, not_exists, not_and]

theorem Refines.find_prefix (h : Refines s t) (key : String) :
    (s.prefixes.toList.find? fun p => hasPrefix key p.path) =
      (longest ((t.prefixed.map Prod.fst).filter (hasPrefix key))).map fun q =>
        ⟨q, t.expsAt q⟩ := by
  cases hl : longest ((t.prefixed.map Prod.fst).filter (hasPrefix key)) with
  | none =>
    have hnil := List.argmax_eq_none.mp hl
    refine List.find?_eq_none.mpr fun p hp hpre => ?_
    obtain ⟨hne, hexps⟩ := (h.mem p).mp hp
    rw [hexps, Ne, expsAt_eq_nil_iff, not_not] at hne
    exact absurd (List.mem_filter.mpr ⟨hne, hpre⟩) (by simp [hnil])
  | some q =>
    obtain ⟨hreg, hpre⟩ := List.mem_filter.mp (List.argmax_mem hl)
    have hentry : (⟨q, t.expsAt q⟩ : Prefix R H) ∈ s.prefixes.toList :=
      (h.mem _).mpr ⟨fun hnil => expsAt_eq_nil_iff.mp hnil hreg, rfl⟩
    have hsome : (s.prefixes.toList.find? fun p => hasPrefix key p.path).isSome = true :=
      List.find?_isSome.mpr ⟨_, hentry, hpre⟩
    obtain ⟨p, hp⟩ := Option.isSome_iff_exists.mp hsome
    obtain ⟨hppre, low, high, hcut, hlow⟩ := List.find?_eq_some_iff_append.mp hp
    obtain ⟨hne, hexps⟩ := (h.mem p).mp (hcut ▸ List.mem_append_right _ List.mem_cons_self)
    have hpreg : p.path ∈ t.prefixed.map Prod.fst := by
      rw [hexps] at hne
      exact not_not.mp fun hnot => hne (expsAt_eq_nil_iff.mpr hnot)
    suffices hpath : p.path = q by
      rw [hp, Option.map_some, ← hpath, ← hexps]
    -- a longer beginning would be greater, and stand before the entry that was found
    by_contra hpath
    have hlen := List.le_of_mem_argmax (List.mem_filter.mpr ⟨hpreg, hppre⟩) hl
    have hbegin : p.path.toList <+: q.toList := by
      refine List.prefix_of_prefix_length_le (hasPrefix_iff.mp hppre) (hasPrefix_iff.mp hpre) ?_
      rwa [String.length_toList, String.length_toList]
    have hlt := lt_of_isPrefix hbegin hpath
    have hord := h.wf.ordered
    rw [hcut] at hentry hord
    rcases List.mem_append.mp hentry with hin | hin
    · have hnot := hlow _ hin
      rw [hpre] at hnot
      cases hnot
    · rcases List.mem_cons.mp hin with he | hin
      · exact hpath (congrArg Prefix.path he).symm
      · have hafter := (List.pairwise_cons.mp (List.pairwise_append.mp hord).2.1).1 _ hin
        simp only [less, decide_eq_true_eq] at hafter
        exact String.lt_irrefl _ (String.lt_trans hlt hafter)

/-- What a request begins with is not behind it in the order. -/
theorem not_less_of_hasPrefix {key : String} {p : Prefix R H} (h : hasPrefix key p.path = true) :
    less p (⟨key, []⟩ : Prefix R H) = false := by
  simp only [less, decide_eq_false_iff_not]
  intro hlt
  by_cases he : p.path = key
  · rw [he] at hlt
    exact String.lt_irrefl _ hlt
  · exact String.lt_irrefl _ (String.lt_trans hlt (lt_of_isPrefix (hasPrefix_iff.mp h) he))

theorem Refines.getHandler (h : Refines s t) (method path : String) :
    s.getHandler method path = t.getHandler method path := by
  rw [HttpServer.getHandler, Table.getHandler, ← h.path]
  cases s.path (method ++ path) with
  | some i => rfl
  | none =>
    generalize method ++ path = key
    have hwalk := BTree.ascendGreaterOrEqual_spec strictWeak_less h.wf ⟨key, []⟩
      (fun item _ => ((item, hasPrefix key item.path), !hasPrefix key item.path)) (⟨"", []⟩, false)
    obtain ⟨last, hlast⟩ := foldUntil_find (fun p : Prefix R H => hasPrefix key p.path)
      (s.prefixes.toList.filter fun y => !less y ⟨key, []⟩) (s := (⟨"", []⟩, false)) rfl
    have hfind : (s.prefixes.toList.filter fun y => !less y ⟨key, []⟩).find?
        (fun p => hasPrefix key p.path) =
          s.prefixes.toList.find? fun p => hasPrefix key p.path := by
      rw [List.find?_filter]
      congr 1
      funext p
      cases hp : hasPrefix key p.path with
      | true => simp [not_less_of_hasPrefix hp]
      | false => simp
    rw [hlast, hfind, h.find_prefix] at hwalk
    simp only [hwalk]
    cases longest ((t.prefixed.map Prod.fst).filter (hasPrefix key)) with
    | none => rfl
    | some q => rfl

end Refinement

/-! ## The result -/

/-- After these registrations the server and the table are both there or have both panicked. Every
    request then gets the same of both, and every further registration has the same outcome. The
    tree is balanced and sorted. -/
structure Agrees (R : Regexps) {H : Type} (rs : List (Registration H)) : Prop where
  alive : ((newHTTPServer : HttpServer R H).registers rs).isSome =
    ((⟨[], []⟩ : Table R H).registers rs).isSome
  same : ∀ (s : HttpServer R H) (t : Table R H), newHTTPServer.registers rs = some s →
    Table.registers rs ⟨[], []⟩ = some t →
      (∀ method path, s.getHandler method path = t.getHandler method path) ∧
        (∀ r, (s.register r).2 = (t.register r).2) ∧ s.prefixes.Wf less

/-- Through its map and its b-tree the server finds what the table has for all of a URL, or for the
    longest beginning of it. -/
theorem getHandler_eq (R : Regexps) {H : Type} (rs : List (Registration H)) : Agrees R rs where
  alive := by
    have h := refines_new.registers (R := R) rs
    generalize newHTTPServer.registers rs = s, Table.registers rs ⟨[], []⟩ = t at h
    cases h with
    | some _ => rfl
    | none => rfl
  same s t hs ht := by
    have h := refines_new.registers (R := R) rs
    rw [hs, ht] at h
    cases h with
    | some h => exact ⟨h.getHandler, fun r => (h.register r).1, h.wf⟩

end Doodle.Crab.Http
