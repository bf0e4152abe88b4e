/-
  `url.Parse` of Go 1.9 as the gateway sees it: host, path and query of a text. The parser of the
  authority is left open (`Authority`).

  * `rawQuery_urlParse`: the query of whatever is parsed is what follows the first `?` of the text
    before the first `#`.
  * `urlParse_address`: an address with a scheme and an authority is parsed into its parts.
  * `goUrl`: with `Values.Encode` this is an implementation of `NetUrl`.
-/
import Doodle.Go.Append
import Doodle.Go.Url

namespace Doodle.Go

/-! ## The model -/

/-- `url.unescape` in a path or a fragment. -/
def pathUnescape : List Char → Option (List Char)
  | [] => some []
  | c :: cs =>
    if c = '%' then
      match cs with
      | a :: b :: ds =>
        match unhex a, unhex b with
        | some h, some l => (pathUnescape ds).map (Char.ofNat (16 * h + l) :: ·)
        | _, _ => none
      | _ => none
    else (pathUnescape cs).map (c :: ·)

/-- `url.parseAuthority`: the host of an authority. -/
structure Authority where
  parse : List Char → Option String
  parse_addr : ∀ (host : String) (port : Nat), IsAddr host → port < 65536 →
    parse (host ++ ":" ++ port.repr).toList = some (host ++ ":" ++ port.repr)

def isSchemeChar (c : Char) : Bool := c.isAlphanum || c == '+' || c == '-' || c == '.'

/-- `url.getscheme`: the scheme, if there is one, and what follows it. -/
def getscheme (text : List Char) : Option (List Char × List Char) :=
  match text with
  | [] => some ([], text)
  | c :: _ =>
    if c = ':' then none
    else if c.isAlpha then
      match text.dropWhile isSchemeChar with
      | ':' :: rest => some (text.takeWhile isSchemeChar, rest)
      | _ => some ([], text)
    else some ([], text)

/-- The end of `url.parse`: the authority, if there is one, and the path. -/
def parseHier (A : Authority) (scheme rest query : List Char) : Option Url :=
  if (scheme ≠ [] ∨ ¬ "///".toList <+: rest) ∧ "//".toList <+: rest then
    let auth := before '/' (rest.drop 2)
    (A.parse auth).bind fun host =>
      (pathUnescape ((rest.drop 2).drop auth.length)).map fun path =>
        ⟨host, String.ofList path, String.ofList query⟩
  else (pathUnescape rest).map fun path => ⟨"", String.ofList path, String.ofList query⟩

/-- `url.parse`, of a text without a fragment. -/
def parseTarget (A : Authority) (text : List Char) : Option Url :=
  if text = ['*'] then some ⟨"", "*", ""⟩
  else
    (getscheme text).bind fun (scheme, rest) =>
      let query := after '?' rest
      let rest := before '?' rest
      if rest.head? = some '/' then parseHier A scheme rest query
      else if scheme ≠ [] then some ⟨"", "", String.ofList query⟩
      else if ':' ∈ before '/' rest then none
      else parseHier A scheme rest query

/-- `url.Parse` -/
def urlParse (A : Authority) (text : String) : Option Url :=
  (parseTarget A (before '#' text.toList)).bind fun url =>
    (pathUnescape (after '#' text.toList)).map fun _ => url

/-! ## The query -/

/-- The query of a text, as far as it is cut off before anything is parsed. -/
def queryOf (text : List Char) : List Char := after '?' (before '#' text)

/-- A scheme, as `getscheme` reads it. -/
def IsScheme : List Char → Prop
  | [] => False
  | c :: cs => c.isAlpha = true ∧ ∀ d ∈ cs, isSchemeChar d = true

theorem isScheme_http : IsScheme "http".toList := ⟨by decide, List.all_eq_true.mp (by decide)⟩

theorem IsScheme.forall {scheme : List Char} (h : IsScheme scheme) :
    ∀ c ∈ scheme, isSchemeChar c = true := by
  match scheme, h with
  | c :: cs, h =>
    refine List.forall_mem_cons.mpr ⟨?_, h.2⟩
    simp [isSchemeChar, Char.isAlphanum, h.1]

theorem IsScheme.not_mem {scheme : List Char} (h : IsScheme scheme) {c : Char}
    (hc : isSchemeChar c = false) : c ∉ scheme := fun hmem => by
  rw [h.forall c hmem] at hc
  cases hc

theorem getscheme_append {scheme : List Char} (h : IsScheme scheme) (rest : List Char) :
    getscheme (scheme ++ ':' :: rest) = some (scheme, rest) := by
  have htake : (scheme ++ ':' :: rest).takeWhile isSchemeChar = scheme := by
    rw [List.takeWhile_append_of_pos h.forall]
    simp [show isSchemeChar ':' = false from rfl]
  have hdrop : (scheme ++ ':' :: rest).dropWhile isSchemeChar = ':' :: rest := by
    rw [List.dropWhile_append_of_pos h.forall]
    simp [show isSchemeChar ':' = false from rfl]
  have hcolon : ':' ∉ scheme := h.not_mem rfl
  unfold getscheme
  rw [htake, hdrop]
  match scheme, h with
  | c :: cs, h =>
    have hc : c ≠ ':' := fun hc => hcolon (hc ▸ List.mem_cons_self)
    simp only [List.cons_append, if_neg hc, h.1, if_true]

/-- What follows `scheme://`: the authority, and the path. -/
def authorityOf (x : List Char) : List Char := before '/' (before '?' (before '#' x))

def hierPath (x : List Char) : List Char :=
  (before '?' (before '#' x)).drop (authorityOf x).length

theorem parseHier_scheme (A : Authority) {scheme : List Char} (h : scheme ≠ [])
    (rest query : List Char) : parseHier A scheme ('/' :: '/' :: rest) query =
      (A.parse (before '/' rest)).bind fun host =>
        (pathUnescape (rest.drop (before '/' rest).length)).map fun path =>
          ⟨host, String.ofList path, String.ofList query⟩ := by
  have hcond : (scheme ≠ [] ∨ ¬ "///".toList <+: '/' :: '/' :: rest) ∧
      "//".toList <+: '/' :: '/' :: rest := ⟨Or.inl h, ⟨rest, rfl⟩⟩
  rw [parseHier, if_pos hcond]
  rfl

theorem urlParse_scheme (A : Authority) {scheme : List Char} (h : IsScheme scheme)
    (x : List Char) : urlParse A (String.ofList (scheme ++ "://".toList ++ x)) =
      (A.parse (authorityOf x)).bind fun host => (pathUnescape (hierPath x)).bind fun path =>
        (pathUnescape (after '#' x)).map fun _ =>
          ⟨host, String.ofList path, String.ofList (queryOf x)⟩ := by
  have hfrag : '#' ∉ scheme ++ "://".toList := by
    simp [h.not_mem (show isSchemeChar '#' = false from rfl)]
  have hne : scheme ≠ [] := fun hnil => by
    rw [hnil] at h
    exact h
  have hstar : scheme ++ ':' :: '/' :: '/' :: before '#' x ≠ ['*'] := by
    match scheme, h with
    | c :: cs, _ => simp
  have hquery : ∀ y, before '?' ('/' :: '/' :: y) = '/' :: '/' :: before '?' y ∧
      after '?' ('/' :: '/' :: y) = after '?' y := fun y =>
    ⟨before_append_of_not_mem (l := ['/', '/']) (by decide) y,
      after_append_of_not_mem (l := ['/', '/']) (by decide) y⟩
  have htarget : parseTarget A (scheme ++ ':' :: '/' :: '/' :: before '#' x) =
      parseHier A scheme ('/' :: '/' :: before '?' (before '#' x)) (queryOf x) := by
    simp only [parseTarget, if_neg hstar, getscheme_append h, Option.bind_some, hquery,
      List.head?_cons, if_true, queryOf]
  rw [urlParse, String.toList_ofList, before_append_of_not_mem hfrag, after_append_of_not_mem hfrag,
    List.append_assoc]
  show (parseTarget A (scheme ++ ':' :: '/' :: '/' :: before '#' x)).bind _ = _
  rw [htarget, parseHier_scheme A hne, Option.bind_assoc]
  refine congrArg (Option.bind (A.parse (authorityOf x))) (funext fun host => ?_)
  show ((pathUnescape (hierPath x)).map _).bind _ = _
  cases pathUnescape (hierPath x) <;> rfl

/-! ## Unescaping a path -/

theorem pathUnescape_cons {c : Char} (hc : c ≠ '%') (cs : List Char) :
    pathUnescape (c :: cs) = (pathUnescape cs).map (c :: ·) := by
  conv_lhs => unfold pathUnescape
  rw [if_neg hc]

theorem pathUnescape_append {u u' : List Char} (h : pathUnescape u = some u') (w : List Char) :
    pathUnescape (u ++ w) = (pathUnescape w).map (u' ++ ·) := by
  fun_induction pathUnescape u generalizing u' with
  | case1 =>
    obtain rfl := Option.some.inj h
    simp
  | case2 a b ds x y ha hb ih =>
    obtain ⟨es, he, rfl⟩ := Option.map_eq_some_iff.mp h
    simp only [List.cons_append, pathUnescape, if_true, ha, hb, ih he, Option.map_map]
    rfl
  | case3 => cases h
  | case4 => cases h
  | case5 c cs hc ih =>
    obtain ⟨es, he, rfl⟩ := Option.map_eq_some_iff.mp h
    rw [List.cons_append, pathUnescape_cons hc, ih he, Option.map_map]
    rfl

theorem pathUnescape_of_not_mem {cs : List Char} (h : '%' ∉ cs) : pathUnescape cs = some cs := by
  induction cs with
  | nil => rfl
  | cons c cs ih =>
    rw [List.mem_cons, not_or] at h
    rw [pathUnescape_cons (Ne.symm h.1), ih h.2]
    rfl

/-- Unescaping makes a text shorter, unless there is nothing to unescape. -/
theorem length_pathUnescape {cs ds : List Char} (h : pathUnescape cs = some ds) :
    ds.length ≤ cs.length ∧ ('%' ∈ cs → ds.length < cs.length) := by
  fun_induction pathUnescape cs generalizing ds with
  | case1 =>
    obtain rfl := Option.some.inj h
    simp
  | case2 a b es x y ha hb ih =>
    obtain ⟨fs, hf, rfl⟩ := Option.map_eq_some_iff.mp h
    have := (ih hf).1
    simp only [List.length_cons]
    omega
  | case3 => cases h
  | case4 => cases h
  | case5 c cs hc ih =>
    obtain ⟨es, he, rfl⟩ := Option.map_eq_some_iff.mp h
    obtain ⟨hle, hlt⟩ := ih he
    simp only [List.length_cons, List.mem_cons, Ne.symm hc, false_or]
    exact ⟨Nat.succ_le_succ hle, fun hp => Nat.succ_lt_succ (hlt hp)⟩

/-! ## The path of a text -/

/-- A text that is a path as it is. -/
def IsPlain (x : List Char) : Prop := ∀ c ∈ x, c ≠ '?' ∧ c ≠ '#' ∧ c ≠ '%'

/-- What a text contributes to the path it is appended to. -/
def pathOf (x : List Char) : Option (List Char) := pathUnescape (before '?' (before '#' x))

theorem pathOf_append {p p' : List Char} (hq : '?' ∉ p) (hf : '#' ∉ p)
    (h : pathUnescape p = some p') (x : List Char) :
    pathOf (p ++ x) = (pathOf x).map (p' ++ ·) := by
  rw [pathOf, before_append_of_not_mem hf, before_append_of_not_mem hq, pathUnescape_append h]
  rfl

theorem pathOf_append_of_plain {p : List Char} (h : IsPlain p) (x : List Char) :
    pathOf (p ++ x) = (pathOf x).map (p ++ ·) :=
  pathOf_append (fun hc => (h _ hc).1 rfl) (fun hc => (h _ hc).2.1 rfl)
    (pathUnescape_of_not_mem fun hc => (h _ hc).2.2 rfl) x

theorem length_before_le (c : Char) (l : List Char) : (before c l).length ≤ l.length :=
  (List.takeWhile_prefix _).length_le

theorem length_before_lt {c : Char} {l : List Char} (h : c ∈ l) :
    (before c l).length < l.length := by
  have := congrArg List.length (before_append_after h)
  simp only [List.length_append, List.length_cons] at this
  omega

/-- A text is its own path exactly when it is plain. -/
theorem pathOf_eq_self_iff (x : List Char) : pathOf x = some x ↔ IsPlain x := by
  constructor
  · intro h
    have hlen := length_pathUnescape h
    have h1 := length_before_le '?' (before '#' x)
    have h2 := length_before_le '#' x
    have hf : '#' ∉ x := fun hc => by
      have := length_before_lt hc
      omega
    rw [before_of_not_mem hf] at hlen h1
    have hq : '?' ∉ x := fun hc => by
      have := length_before_lt hc
      omega
    rw [before_of_not_mem hq] at hlen
    have hp : '%' ∉ x := fun hc => by
      have := hlen.2 hc
      omega
    exact fun c hc => ⟨fun h => hq (h ▸ hc), fun h => hf (h ▸ hc), fun h => hp (h ▸ hc)⟩
  · intro h
    have := pathOf_append_of_plain h []
    rwa [List.append_nil, show pathOf [] = some [] from rfl, Option.map_some, List.append_nil]
      at this

/-- A plain text before another is never lost: by induction on the length, since what follows it
    would have to start with it as well. -/
theorem pathOf_append_ne {c : List Char} (hne : c ≠ []) (hc : IsPlain c) :
    ∀ (n : Nat) (y : List Char), y.length ≤ n → pathOf (c ++ y) ≠ some y := by
  have hpos : 0 < c.length := List.length_pos_iff.mpr hne
  intro n
  induction n with
  | zero =>
    intro y hy h
    rw [pathOf_append_of_plain hc] at h
    obtain ⟨z, -, hz⟩ := Option.map_eq_some_iff.mp h
    have := congrArg List.length hz
    rw [List.length_append] at this
    omega
  | succ n ih =>
    intro y hy h
    rw [pathOf_append_of_plain hc] at h
    obtain ⟨z, hpath, rfl⟩ := Option.map_eq_some_iff.mp h
    rw [List.length_append] at hy
    exact ih z (by omega) hpath

/-- What can follow an authority. -/
def EndsAuthority (y : List Char) : Prop :=
  y = [] ∨ y.head? = some '/' ∨ y.head? = some '?' ∨ y.head? = some '#'

/-- An authority as it stands in an address. -/
def IsAuthority (auth : List Char) : Prop := ∀ c ∈ auth, c ≠ '/' ∧ c ≠ '?' ∧ c ≠ '#'

theorem authorityOf_append {auth y : List Char} (ha : IsAuthority auth) (hy : EndsAuthority y) :
    authorityOf (auth ++ y) = auth ∧
      hierPath (auth ++ y) = before '?' (before '#' y) := by
  have hcut : before '?' (before '#' (auth ++ y)) = auth ++ before '?' (before '#' y) := by
    rw [before_append_of_not_mem (fun h => (ha _ h).2.2 rfl),
      before_append_of_not_mem (fun h => (ha _ h).2.1 rfl)]
  have hslash : before '/' (before '?' (before '#' y)) = [] := by
    match y, hy with
    | [], _ => rfl
    | c :: y, hy =>
      simp only [EndsAuthority, List.head?_cons, Option.some.injEq, List.cons_ne_nil,
        false_or] at hy
      rcases hy with rfl | rfl | rfl <;> rfl
  have hauth : authorityOf (auth ++ y) = auth := by
    rw [authorityOf, hcut, before_append_of_not_mem (fun h => (ha _ h).1 rfl), hslash,
      List.append_nil]
  exact ⟨hauth, by rw [hierPath, hauth, hcut, List.drop_left]⟩

/-- An address with an authority, and whatever follows it. -/
theorem urlParse_authority (A : Authority) {scheme auth y : List Char} (h : IsScheme scheme)
    (ha : IsAuthority auth) (hy : EndsAuthority y) :
    urlParse A (String.ofList (scheme ++ "://".toList ++ (auth ++ y))) =
      (A.parse auth).bind fun host => (pathOf y).bind fun path =>
        (pathUnescape (after '#' y)).map fun _ =>
          ⟨host, String.ofList path, String.ofList (queryOf y)⟩ := by
  have hfrag : '#' ∉ auth := fun h => (ha _ h).2.2 rfl
  rw [urlParse_scheme A h, (authorityOf_append ha hy).1, (authorityOf_append ha hy).2, queryOf,
    before_append_of_not_mem hfrag, after_append_of_not_mem (fun h => (ha _ h).2.1 rfl),
    after_append_of_not_mem hfrag]
  rfl

/-! ## Queries that are appended -/

/-- `?` and the query, if there is one. -/
def argsText (args : String) : List Char := if args = "" then [] else '?' :: args.toList

theorem toList_withArgs_eq (s args : String) :
    (withArgs s args).toList = s.toList ++ argsText args := by
  unfold withArgs argsText
  split <;> simp

theorem argsText_cases (args : String) : argsText args = [] ∨ (argsText args).head? = some '?' := by
  unfold argsText
  split
  · exact Or.inl rfl
  · exact Or.inr rfl

theorem after_argsText (args : String) : after '?' (argsText args) = args.toList := by
  unfold argsText
  split
  · next h => simp [h, after]
  · simp [after]

theorem before_argsText (args : String) : before '?' (argsText args) = [] := by
  unfold argsText
  split
  · rfl
  · simp [before]

theorem not_mem_argsText {args : String} (h : '#' ∉ args.toList) : '#' ∉ argsText args := by
  unfold argsText
  split
  · exact List.not_mem_nil
  · simpa using h

/-! ## An implementation of `NetUrl` -/

theorem hexDigit_ne (n : Nat) : hexDigit n ≠ '#' := by
  have hsmall : ∀ n < 16, hexDigit n ≠ '#' := by decide
  by_cases h : n < 16
  · exact hsmall n h
  · have hstar : Nat.digitChar n = '*' := by
      unfold Nat.digitChar
      repeat rw [if_neg (by omega)]
    rw [hexDigit, hstar]
    decide

theorem not_mem_queryEscape (cs : List Char) : '#' ∉ queryEscape cs := by
  intro h
  obtain ⟨c, -, hc⟩ := List.mem_flatMap.mp h
  unfold escapeChar at hc
  split at hc
  · next hun =>
    obtain rfl := List.mem_singleton.mp hc
    exact absurd hun (by decide)
  · split at hc
    · exact absurd hc (by decide)
    · simp only [List.mem_cons, List.not_mem_nil, or_false] at hc
      rcases hc with hc | hc | hc
      · exact absurd hc (by decide)
      · exact hexDigit_ne _ hc.symm
      · exact hexDigit_ne _ hc.symm

theorem not_mem_rawQuery (ps : List (String × String)) :
    '#' ∉ rawQuery (ps.map escapePair) := by
  have hpair : ∀ p, '#' ∉ rawPair (escapePair p) := fun p => by
    simp [rawPair, escapePair, not_mem_queryEscape]
  cases ps with
  | nil => exact List.not_mem_nil
  | cons p ps =>
    simp only [List.map_cons, rawQuery, List.mem_append, List.mem_flatMap, not_or]
    refine ⟨hpair p, ?_⟩
    rintro ⟨kv, hkv, hmem⟩
    obtain ⟨p', -, rfl⟩ := List.mem_map.mp hkv
    rcases List.mem_cons.mp hmem with h | h
    · exact absurd h (by decide)
    · exact hpair p' h

/-- The parameters of a query in the order in which `Values.Encode` writes them. -/
def inOrder (q : String) : List (String × String) :=
  (parseQuery q.toList).pairs.mergeSort fun a b => a.1 ≤ b.1

/-- `URL.Query().Encode()` -/
def encodeQuery (q : String) : String := String.ofList (encode (parseQuery q.toList).pairs)

theorem inOrder_perm (q : String) : (inOrder q).Perm (parseQuery q.toList).pairs :=
  List.mergeSort_perm _ _

theorem bytes_inOrder (q : ByteText) :
    ∀ kv ∈ inOrder q.text, IsBytes kv.1 ∧ IsBytes kv.2 := fun kv hkv =>
  bytes_parseQuery q.bytes kv ((inOrder_perm q.text).mem_iff.mp hkv)

theorem toList_encodeQuery (q : String) :
    (encodeQuery q).toList = rawQuery ((inOrder q).map escapePair) := by
  rw [encodeQuery, String.toList_ofList]
  rfl

theorem argsText_encodeQuery_nil {q : String} (h : inOrder q = []) :
    argsText (encodeQuery q) = [] := by
  have hempty : encodeQuery q = "" := String.toList_eq_nil_iff.mp (by
    rw [toList_encodeQuery, h]
    rfl)
  rw [argsText, if_pos hempty]

theorem argsText_encodeQuery_cons {q : String} {p : String × String} {ps : List (String × String)}
    (h : inOrder q = p :: ps) :
    argsText (encodeQuery q) = '?' :: rawQuery ((p :: ps).map escapePair) := by
  have hne : encodeQuery q ≠ "" := fun hempty => by
    have := toList_encodeQuery q
    rw [hempty, h] at this
    simp [rawQuery, rawPair] at this
  rw [argsText, if_neg hne, toList_encodeQuery, h]

/-- The encoded query carries its parameters. -/
theorem pairs_encodeQuery (q : ByteText) :
    (parseQuery (encodeQuery q.text).toList).pairs = inOrder q.text := by
  rw [toList_encodeQuery, parseQuery_escaped (bytes_inOrder q)]

theorem not_mem_encodeQuery (q : String) : '#' ∉ (encodeQuery q).toList := by
  rw [encodeQuery, String.toList_ofList]
  exact not_mem_rawQuery _

theorem not_mem_addr {host : String} (h : IsAddr host) (port : Nat) {c : Char}
    (hc : c.isDigit = false ∧ c ≠ '.' ∧ c ≠ ':') : c ∉ (host ++ ":" ++ port.repr).toList := by
  simp only [String.toList_append, List.mem_append, Nat.toList_repr, not_or]
  refine ⟨⟨fun hm => ?_, fun hm => ?_⟩, fun hm => ?_⟩
  · rcases h.2 c hm with hd | hd
    · rw [hd] at hc
      cases hc.1
    · exact hc.2.1 hd
  · exact hc.2.2 (List.mem_singleton.mp hm)
  · rw [Nat.isDigit_of_mem_toDigits (by decide) (by decide) hm] at hc
    cases hc.1

theorem urlParse_http (A : Authority) (host : String) (port : Nat) (path args : String)
    (hhost : IsAddr host) (hport : port < 65536) (hpath : PlainPath path)
    (hargs : '#' ∉ args.toList) :
    urlParse A (withArgs ("http://" ++ host ++ ":" ++ port.repr ++ path) args) =
      some ⟨host ++ ":" ++ port.repr, path, args⟩ := by
  have htext : withArgs ("http://" ++ host ++ ":" ++ port.repr ++ path) args =
      String.ofList ("http".toList ++ "://".toList ++
        ((host ++ ":" ++ port.repr).toList ++ (path.toList ++ argsText args))) := by
    apply String.toList_injective
    rw [toList_withArgs_eq]
    simp
  have hauth : IsAuthority (host ++ ":" ++ port.repr).toList := fun c hc =>
    ⟨fun h => not_mem_addr hhost port (by decide) (h ▸ hc),
      fun h => not_mem_addr hhost port (by decide) (h ▸ hc),
      fun h => not_mem_addr hhost port (by decide) (h ▸ hc)⟩
  have hplain : IsPlain path.toList := fun c hc =>
    ⟨(hpath.plain c hc).1, (hpath.plain c hc).2.2.1, (hpath.plain c hc).2.1⟩
  have hno : '#' ∉ path.toList := fun hc => (hplain _ hc).2.1 rfl
  have hcut : before '#' (path.toList ++ argsText args) = path.toList ++ argsText args :=
    before_of_not_mem (by simpa [hno] using not_mem_argsText hargs)
  have hends : EndsAuthority (path.toList ++ argsText args) :=
    Or.inr (Or.inl (by rw [List.head?_append, hpath.slash]; rfl))
  have hpathOf : pathOf (path.toList ++ argsText args) = some path.toList := by
    rw [pathOf_append_of_plain hplain, pathOf, before_of_not_mem (not_mem_argsText hargs),
      before_argsText]
    simp [pathUnescape]
  have hquery : queryOf (path.toList ++ argsText args) = args.toList := by
    rw [queryOf, hcut, after_append_of_not_mem (fun hc => (hplain _ hc).1 rfl), after_argsText]
  have hfrag : after '#' (path.toList ++ argsText args) = [] :=
    after_of_not_mem (by simpa [hno] using not_mem_argsText hargs)
  rw [htext, urlParse_authority A isScheme_http hauth hends, A.parse_addr host port hhost hport,
    hpathOf, hquery, hfrag]
  simp [pathUnescape]

/-- `net/url` of Go 1.9. -/
def goUrl (A : Authority) : NetUrl where
  parse := urlParse A
  encodeQuery := encodeQuery
  encodeQuery_plain := not_mem_encodeQuery
  parse_http := urlParse_http A

theorem goUrl_parse (A : Authority) : (goUrl A).parse = urlParse A := rfl

theorem goUrl_encodeQuery (A : Authority) : (goUrl A).encodeQuery = encodeQuery := rfl

end Doodle.Go
