/-
  The URL a request is sent to: `buildRequest` of `repeater/repeater.go` puts the rest of the
  request path and the parameters after the backend's address as text, and has the whole parsed
  by `url.Parse` (`Doodle.Go.Parse`).

  * `urlParse_of_no_query`, `urlParse_of_query`: what the text is parsed into when the address has
    no query of its own, and when it has one.
  * `Gateway.forwards_iff`: when the URL has the host and the path it should, for an address without
    a query.
  * `Gateway.lossless_iff`: when no parameter is lost and the path is the right one. With a query
    of its own the address takes neither parameters nor a rest.
-/
import Mathlib.Data.List.Perm.Subperm
import Doodle.Go.Parse
import Doodle.Repeater.Forward

namespace Doodle.Repeater

open Doodle.Go Doodle.Util

/-! ## Addresses -/

/-- The address of a backend, with or without a query. -/
structure Address (A : Authority) where
  scheme : List Char
  isScheme : IsScheme scheme
  authority : List Char
  isAuthority : IsAuthority authority
  ne : authority ≠ []
  host : String
  parse_host : A.parse authority = some host
  path : List Char
  shape : path = [] ∨ path.head? = some '/'
  no_query : '?' ∉ path
  no_fragment : '#' ∉ path
  decoded : List Char
  unescape_path : pathUnescape path = some decoded
  query : Option (List Char)
  query_plain : ∀ q ∈ query, '#' ∉ q

namespace Address

variable {A : Authority} (a : Address A)

def queryText : List Char :=
  match a.query with
  | none => []
  | some q => '?' :: q

def chars : List Char :=
  a.scheme ++ "://".toList ++ (a.authority ++ (a.path ++ a.queryText))

def text : String := String.ofList a.chars

/-- The parameters of the address itself. -/
def pairs : List (String × String) :=
  match a.query with
  | none => []
  | some q => (parseQuery q).pairs

end Address

/-- A name as the manager's forms accept it for a service or an interface: `valid:"AlphaNumeric"`.
    `interfaceRegister.POST` does not check the paths it stores. -/
structure Name where
  text : String
  alnum : ∀ c ∈ text.toList, c.isAlphanum = true

theorem isAlphanum_ne {c : Char} (h : c.isAlphanum = true) {d : Char}
    (hd : d.isAlphanum = false) : c ≠ d := by
  rintro rfl
  rw [h] at hd
  cases hd

theorem Name.not_mem (n : Name) {d : Char} (hd : d.isAlphanum = false) : d ∉ n.text.toList :=
  fun h => isAlphanum_ne (n.alnum d h) hd rfl

/-! ## What is appended -/

/-- What `addRest` appends. -/
def joined (base rest : List Char) : List Char :=
  if 1 < rest.length then if base.getLast? = some '/' then rest.drop 1 else rest else []

theorem addRest_eq (backend rest : String) :
    addRest backend rest = String.ofList (backend.toList ++ joined backend.toList rest.toList) := by
  apply String.toList_injective
  unfold addRest joined
  rw [String.length_toList, String.toList_ofList]
  split
  · split <;> simp [sliceFrom]
  · simp

theorem joined_eq_nil_iff (base rest : List Char) : joined base rest = [] ↔ rest.length ≤ 1 := by
  unfold joined
  split
  · next h =>
    refine iff_of_false ?_ (by omega)
    split
    · exact fun hnil => absurd (List.drop_eq_nil_iff.mp hnil) (by omega)
    · rintro rfl
      exact absurd h (by simp)
  · exact iff_of_true rfl (by omega)

theorem isPlain_of_alnum {l : List Char} (h : ∀ c ∈ l, c.isAlphanum = true) : IsPlain l :=
  fun c hc => ⟨isAlphanum_ne (h c hc) rfl, isAlphanum_ne (h c hc) rfl, isAlphanum_ne (h c hc) rfl⟩

theorem Rest.shape_toList (r : Rest) : r.text.toList = [] ∨ r.text.toList.head? = some '/' :=
  r.shape.imp_left fun h => by rw [h]; rfl

/-- What is appended is plain when the rest is; the slash that may be left out is plain. -/
theorem isPlain_joined (base : List Char) {rest : List Char}
    (hr : rest = [] ∨ rest.head? = some '/') :
    IsPlain (joined base rest) ↔ rest.length ≤ 1 ∨ IsPlain rest := by
  unfold joined
  split
  · next h =>
    obtain ⟨t, rfl⟩ : ∃ t, rest = '/' :: t := by
      cases rest with
      | nil => exact absurd h (by simp)
      | cons c t => exact ⟨t, by simpa using hr⟩
    have hlen : ¬ ('/' :: t).length ≤ 1 := by omega
    simp only [hlen, false_or]
    split
    · simp [IsPlain]
    · rfl
  · exact iff_of_true (fun c hc => absurd hc List.not_mem_nil) (Or.inl (by omega))

/-- The rest of the path does not come out right with something plain before it. -/
theorem pathOf_append_joined_ne {c : List Char} (hne : c ≠ []) (hc : IsPlain c) (base : List Char)
    {rest : List Char} (hr : rest = [] ∨ rest.head? = some '/') :
    pathOf (c ++ rest) ≠ some (joined base rest) := by
  unfold joined
  split
  · split
    · obtain ⟨t, rfl⟩ : ∃ t, rest = '/' :: t := by
        cases rest with
        | nil => simp_all
        | cons d t => exact ⟨t, by simpa using hr⟩
      have hc' : IsPlain (c ++ ['/']) := fun d hd => by
        rcases List.mem_append.mp hd with hd | hd
        · exact hc d hd
        · rw [List.mem_singleton.mp hd]
          decide
      have := pathOf_append_ne (by simp) hc' t.length t (Nat.le_refl _)
      simpa using this
    · exact pathOf_append_ne hne hc rest.length rest (Nat.le_refl _)
  · rw [pathOf_append_of_plain hc]
    intro h
    obtain ⟨z, -, hz⟩ := Option.map_eq_some_iff.mp h
    exact hne (List.append_eq_nil_iff.mp hz).1

/-! ## What the text is parsed into -/

theorem pathOf_args (t : List Char) {args : String} (h : '#' ∉ args.toList) :
    pathOf (t ++ argsText args) = pathOf t := by
  unfold pathOf
  by_cases hf : '#' ∈ t
  · rw [before_append_of_mem hf]
  · rw [before_append_of_not_mem hf, before_of_not_mem (not_mem_argsText h), before_of_not_mem hf]
    by_cases hq : '?' ∈ t
    · rw [before_append_of_mem hq]
    · rw [before_append_of_not_mem hq, before_argsText, List.append_nil, before_of_not_mem hq]

section Parse

variable {A : Authority} (a : Address A)

/-- The address, what is appended to it, and the parameters. -/
theorem withArgs_address (t : List Char) (args : String) :
    withArgs (String.ofList (a.chars ++ t)) args =
      String.ofList (a.scheme ++ "://".toList ++
        (a.authority ++ (a.path ++ (a.queryText ++ (t ++ argsText args))))) := by
  apply String.toList_injective
  rw [toList_withArgs_eq]
  simp [Address.chars]

theorem queryOf_path (x : List Char) : queryOf (a.path ++ x) = queryOf x := by
  rw [queryOf, before_append_of_not_mem a.no_fragment, after_append_of_not_mem a.no_query, queryOf]

variable (t : List Char) (args : String)

/-- An address without a query. -/
theorem urlParse_of_no_query (hq : a.query = none)
    (hends : EndsAuthority (a.path ++ (t ++ argsText args))) (hargs : '#' ∉ args.toList) :
    urlParse A (withArgs (String.ofList (a.chars ++ t)) args) =
      (pathOf t).bind fun z => (pathUnescape (after '#' (t ++ argsText args))).map fun _ =>
        ⟨a.host, String.ofList (a.decoded ++ z), String.ofList (queryOf (t ++ argsText args))⟩ := by
  have hnil : a.queryText = [] := by rw [Address.queryText, hq]
  rw [withArgs_address, hnil, List.nil_append, urlParse_authority A a.isScheme a.isAuthority hends,
    a.parse_host, Option.bind_some, pathOf_append a.no_query a.no_fragment a.unescape_path,
    after_append_of_not_mem a.no_fragment, queryOf_path, pathOf_args t hargs]
  cases pathOf t <;> rfl

/-- An address with a query: what is appended to it goes there. -/
theorem urlParse_of_query {q : List Char} (hq : a.query = some q) :
    urlParse A (withArgs (String.ofList (a.chars ++ t)) args) =
      (pathUnescape (after '#' (q ++ (t ++ argsText args)))).map fun _ =>
        ⟨a.host, String.ofList a.decoded,
          String.ofList (before '#' (q ++ (t ++ argsText args)))⟩ := by
  have htext : a.queryText = '?' :: q := by rw [Address.queryText, hq]
  have hends : EndsAuthority (a.path ++ ('?' :: q ++ (t ++ argsText args))) := by
    rcases a.shape with h | h
    · exact Or.inr (Or.inr (Or.inl (by rw [h]; rfl)))
    · exact Or.inr (Or.inl (by rw [List.head?_append, h]; rfl))
  have hpath : pathOf ('?' :: q ++ (t ++ argsText args)) = some [] := by
    simp [pathOf, before, pathUnescape]
  have hquery : queryOf ('?' :: q ++ (t ++ argsText args)) =
      before '#' (q ++ (t ++ argsText args)) := by
    simp [queryOf, before, after]
  have hfrag : after '#' ('?' :: q ++ (t ++ argsText args)) =
      after '#' (q ++ (t ++ argsText args)) := by
    simp [after]
  rw [withArgs_address, htext, urlParse_authority A a.isScheme a.isAuthority hends, a.parse_host,
    Option.bind_some, pathOf_append a.no_query a.no_fragment a.unescape_path,
    after_append_of_not_mem a.no_fragment, queryOf_path, hpath, hquery, hfrag]
  simp

end Parse

/-! ## What is appended to an address -/

section Appended

variable {A : Authority} (a : Address A)

/-- Without a query the address ends in a slash when its path does. -/
theorem joined_chars (hq : a.query = none) (rest : List Char) :
    joined a.chars rest = joined a.path rest := by
  have hlast : a.chars.getLast? = some '/' ↔ a.path.getLast? = some '/' := by
    have hnil : a.queryText = [] := by rw [Address.queryText, hq]
    have hauth : a.authority.getLast? ≠ some '/' := fun h =>
      (a.isAuthority _ (List.mem_of_getLast? h)).1 rfl
    obtain ⟨c, hc⟩ := Option.isSome_iff_exists.mp (List.getLast?_isSome.mpr a.ne)
    rw [Address.chars, hnil, List.append_nil, List.getLast?_append, List.getLast?_append]
    cases hp : a.path.getLast? with
    | some c => simp
    | none => simp [hc, hc ▸ hauth]
  unfold joined
  simp only [hlast]

/-- The text that `plainBackend` appends to an address. -/
inductive Appends (a : Address A) (s i : Name) (r : Rest) : List Char → Prop
  | empty : i.text = "" → Appends a s i r []
  | rest : i.text ≠ "" → ¬ i.text.toList <:+: s.text.toList →
      Appends a s i r (joined a.chars r.text.toList)
  | overlap (s1 s2 : List Char) : i.text ≠ "" →
      FirstAt i.text.toList s.text.toList s1 s2 →
      Appends a s i r (joined a.chars (s2 ++ '/' :: (i.text.toList ++ r.text.toList)))

theorem exists_appends (s i : Name) (r : Rest) : ∃ t, Appends a s i r t ∧
    Gateway.plainBackend (Gateway.plainInterface i.text a.text) (pathText s.text i.text r.text) =
      String.ofList (a.chars ++ t) := by
  have htext : a.text.toList = a.chars := String.toList_ofList
  have hslash : '/' ∉ i.text.toList := i.not_mem rfl
  by_cases hne : i.text = ""
  · refine ⟨[], .empty hne, ?_⟩
    have hidx : index (pathText s.text i.text r.text) i.text = some 0 :=
      index_eq_some_iff.mpr ⟨Nat.zero_le _, by simp [hne], fun m hm => by omega⟩
    rw [List.append_nil]
    simp only [Gateway.plainBackend, Gateway.plainInterface, hidx, Nat.lt_irrefl, false_and,
      if_false]
    rfl
  · by_cases hinf : i.text.toList <:+: s.text.toList
    · obtain ⟨s1, s2, hfirst⟩ := exists_firstAt hinf
      refine ⟨_, .overlap s1 s2 hne hfirst, (Gateway.plainBackend_of_inside
        (Gateway.plainInterface i.text a.text) r.text hslash hne hfirst).trans ?_⟩
      rw [addRest_eq]
      simp [Gateway.plainInterface, htext]
    · refine ⟨_, .rest hne hinf, (Gateway.plainBackend_of_not_inside
        (Gateway.plainInterface i.text a.text) r.text hslash hne hinf).trans ?_⟩
      rw [addRest_eq]
      simp [Gateway.plainInterface, htext]

end Appended

/-! ## Nothing is lost -/

section Carries

variable {A : Authority} (a : Address A) (r : Rest) (q : ByteText)

/-- A URL with the path of the address, the rest of the request path, and the parameters of
    both. -/
structure Carries (u : Url) : Prop where
  path : u.path = String.ofList (a.decoded ++ joined a.path r.text.toList)
  params : (a.pairs ++ (parseQuery q.text.toList).pairs).Subperm
    (parseQuery u.rawQuery.toList).pairs

end Carries

section NoQuery

variable {A : Authority} {a : Address A} {r : Rest} {q : String} (hq : a.query = none)

theorem endsAuthority_path {t : List Char} (h : a.path = [] → t = [] ∨ t.head? = some '/')
    (args : String) : EndsAuthority (a.path ++ (t ++ argsText args)) := by
  rcases a.shape with hp | hp
  · rw [hp, List.nil_append]
    rcases h hp with rfl | ht
    · rcases argsText_cases args with ha | ha
      · exact Or.inl ha
      · exact Or.inr (Or.inr (Or.inl ha))
    · exact Or.inr (Or.inl (by rw [List.head?_append, ht]; rfl))
  · exact Or.inr (Or.inl (by rw [List.head?_append, hp]; rfl))

theorem joined_path_cases (r : Rest) (h : a.path = []) :
    joined a.path r.text.toList = [] ∨ (joined a.path r.text.toList).head? = some '/' := by
  rw [h]
  unfold joined
  split
  · next hlen =>
    rw [if_neg (by simp)]
    rcases r.shape with hr | hr
    · rw [hr] at hlen
      exact absurd hlen (by decide)
    · exact Or.inr hr
  · exact Or.inl rfl

include hq

/-- An address without a query, and a rest that may be appended. -/
theorem urlParse_of_plain {t : List Char} (ht : t = joined a.path r.text.toList)
    (hplain : IsPlain t) : urlParse A (withArgs (String.ofList (a.chars ++ t)) (encodeQuery q)) =
      some ⟨a.host, String.ofList (a.decoded ++ t), encodeQuery q⟩ := by
  have hargs := not_mem_argsText (not_mem_encodeQuery q)
  have hall : '#' ∉ t ++ argsText (encodeQuery q) := by
    simpa [hargs] using fun hc => (hplain _ hc).2.1 rfl
  have hquery : queryOf (t ++ argsText (encodeQuery q)) = (encodeQuery q).toList := by
    rw [queryOf, before_of_not_mem hall, after_append_of_not_mem (fun hc => (hplain _ hc).1 rfl),
      after_argsText]
  have hends := endsAuthority_path (fun hp => ht ▸ joined_path_cases r hp) (encodeQuery q)
  rw [urlParse_of_no_query a t _ hq hends (not_mem_encodeQuery q),
    (pathOf_eq_self_iff t).mpr hplain, after_of_not_mem hall, hquery, String.ofList_toList]
  rfl

theorem carries_of_plain {q : ByteText} {t : List Char} (ht : t = joined a.path r.text.toList)
    (hplain : IsPlain t) : ∃ u, urlParse A (withArgs (String.ofList (a.chars ++ t))
      (encodeQuery q.text)) = some u ∧ Carries a r q u := by
  refine ⟨_, urlParse_of_plain hq ht hplain, by rw [ht], ?_⟩
  rw [Address.pairs, hq, pairs_encodeQuery]
  exact (inOrder_perm q.text).symm.subperm

/-- A URL with the right path has the rest of the request path for what was appended. -/
theorem pathOf_of_path {t : List Char} {u : Url} (h : a.path = [] → t = [] ∨ t.head? = some '/')
    (hu : urlParse A (withArgs (String.ofList (a.chars ++ t)) (encodeQuery q)) = some u)
    (hpath : u.path = String.ofList (a.decoded ++ joined a.path r.text.toList)) :
    pathOf t = some (joined a.path r.text.toList) := by
  rw [urlParse_of_no_query a t _ hq (endsAuthority_path h _) (not_mem_encodeQuery q)] at hu
  obtain ⟨z, hz, hu⟩ := Option.bind_eq_some_iff.mp hu
  obtain ⟨-, -, rfl⟩ := Option.map_eq_some_iff.mp hu
  have := congrArg String.toList hpath
  simp only [String.toList_ofList, List.append_cancel_left_eq] at this
  rw [hz, this]

/-- A name after an authority becomes part of it. -/
theorem pathOf_of_path_authority (hp : a.path = []) {s2 t : List Char} (hs : IsPlain s2)
    (hslash : '/' ∉ s2) {u : Url} (hu : urlParse A (withArgs (String.ofList
      (a.chars ++ (s2 ++ '/' :: t))) (encodeQuery q)) = some u)
    (hpath : u.path = String.ofList (a.decoded ++ joined a.path r.text.toList)) :
    pathOf ('/' :: t) = some (joined a.path r.text.toList) := by
  have hdecoded : a.decoded = [] := by
    have := a.unescape_path
    rw [hp] at this
    exact (Option.some.inj this).symm
  have htext : a.authority ++ (a.path ++ (a.queryText ++ (s2 ++ '/' :: t ++
      argsText (encodeQuery q)))) =
        (a.authority ++ s2) ++ ('/' :: t ++ argsText (encodeQuery q)) := by
    simp [hp, Address.queryText, hq]
  have hauth : IsAuthority (a.authority ++ s2) := fun c hc => by
    rcases List.mem_append.mp hc with hc | hc
    · exact a.isAuthority c hc
    · exact ⟨fun h => hslash (h ▸ hc), (hs c hc).1, (hs c hc).2.1⟩
  rw [withArgs_address, htext, urlParse_authority A a.isScheme hauth (Or.inr (Or.inl rfl)),
    pathOf_args _ (not_mem_encodeQuery q)] at hu
  obtain ⟨host, -, hu⟩ := Option.bind_eq_some_iff.mp hu
  obtain ⟨z, hz, hu⟩ := Option.bind_eq_some_iff.mp hu
  obtain ⟨-, -, rfl⟩ := Option.map_eq_some_iff.mp hu
  have := congrArg String.toList hpath
  simp only [String.toList_ofList, hdecoded, List.nil_append] at this
  rw [hz, this]

/-- The end of the service's name and the interface before the rest: the path is not right. -/
theorem path_ne_of_overlap {s2 i : List Char} (hs : IsPlain s2) (hslash : '/' ∉ s2)
    (hi : IsPlain i) (hne : i ≠ []) {u : Url}
    (hu : urlParse A (withArgs (String.ofList (a.chars ++
      joined a.path (s2 ++ '/' :: (i ++ r.text.toList)))) (encodeQuery q)) = some u) :
    u.path ≠ String.ofList (a.decoded ++ joined a.path r.text.toList) := by
  intro hpath
  have hlen : 1 < (s2 ++ '/' :: (i ++ r.text.toList)).length := by
    have := List.length_pos_iff.mpr hne
    simp only [List.length_append, List.length_cons]
    omega
  have hplain : ∀ {l}, IsPlain l → IsPlain (l ++ '/' :: i) := fun hl c hc => by
    rcases List.mem_append.mp hc with hc | hc
    · exact hl c hc
    · rcases List.mem_cons.mp hc with rfl | hc
      · decide
      · exact hi c hc
  rw [joined, if_pos hlen] at hu
  by_cases hends : a.path.getLast? = some '/'
  · -- the slash before the interface is dropped, or the first letter before it
    rw [if_pos hends] at hu
    have hpath := pathOf_of_path hq (fun hp => by simp [hp] at hends) hu hpath
    cases s2 with
    | nil => exact pathOf_append_joined_ne hne hi a.path r.shape_toList hpath
    | cons x s2 =>
      refine pathOf_append_joined_ne (by simp)
        (hplain fun c hc => hs c (List.mem_cons_of_mem x hc)) a.path r.shape_toList ?_
      simpa using hpath
  · rw [if_neg hends] at hu
    by_cases hp : a.path = []
    · have hnil : IsPlain ([] : List Char) := fun c hc => absurd hc List.not_mem_nil
      exact pathOf_append_joined_ne (by simp) (hplain hnil) a.path r.shape_toList
        (pathOf_of_path_authority hq hp hs hslash hu hpath)
    · have hpath := pathOf_of_path hq (fun h => absurd h hp) hu hpath
      refine pathOf_append_joined_ne (by simp) (hplain hs) a.path r.shape_toList ?_
      simpa using hpath

end NoQuery

section Query

/-- Letters, digits and slashes. -/
def PathChars (t : List Char) : Prop := ∀ c ∈ t, c.isAlphanum = true ∨ c = '/'

theorem PathChars.ne {t : List Char} (h : PathChars t) {d : Char} (hd : d.isAlphanum = false)
    (hd' : d ≠ '/') : ∀ c ∈ t, c ≠ d := fun c hc => by
  rcases h c hc with h | rfl
  · exact isAlphanum_ne h hd
  · exact Ne.symm hd'

theorem PathChars.isSep {t : List Char} (h : PathChars t) : ∀ c ∈ t, isSep c = false :=
  fun c hc => by
    simp [Go.isSep, h.ne (d := '&') rfl (by decide) c hc, h.ne (d := ';') rfl (by decide) c hc]

/-- A path after a piece spoils its pair. -/
theorem piecePairs_append_iff (piece : List Char) {t : List Char} (ht : PathChars t) :
    (piecePairs piece).Subperm (piecePairs (piece ++ t)) ↔ t = [] ∨ piecePairs piece = [] := by
  constructor
  · intro h
    by_cases hnil : t = []
    · exact Or.inl hnil
    · refine Or.inr (List.eq_nil_iff_forall_not_mem.mpr fun kv hkv => ?_)
      have hplain : ∀ c ∈ t, c ≠ '=' ∧ c ≠ '%' ∧ c ≠ '+' := fun c hc =>
        ⟨ht.ne rfl (by decide) c hc, ht.ne rfl (by decide) c hc, ht.ne rfl (by decide) c hc⟩
      exact parsePair_append_ne (mem_piecePairs.mp hkv).2 hplain hnil
        (mem_piecePairs.mp (h.subset hkv)).2
  · rintro (rfl | h)
    · rw [List.append_nil]
    · rw [h]
      exact List.nil_subperm

/-- A query with parameters or a path after it keeps its own parameters and gets those of the
    request only when there are none to get, and nothing to spoil. -/
theorem params_iff (own : List Char) {t : List Char} (ht : PathChars t) (q : ByteText) :
    ((parseQuery own).pairs ++ (parseQuery q.text.toList).pairs).Subperm
        (parseQuery (own ++ (t ++ argsText (encodeQuery q.text)))).pairs ↔
      (parseQuery q.text.toList).pairs = [] ∧ (t = [] ∨ piecePairs (lastPiece own) = []) := by
  have hperm := inOrder_perm q.text
  cases ho : inOrder q.text with
  | nil =>
    rw [ho] at hperm
    have hsep : ∀ c ∈ lastPiece own ++ t, Go.isSep c = false := fun c hc => by
      rcases List.mem_append.mp hc with hc | hc
      · exact isSep_of_mem_lastPiece hc
      · exact ht.isSep c hc
    rw [argsText_encodeQuery_nil ho, List.append_nil, hperm.nil_eq.symm, List.append_nil,
      pairs_append, pairs_eq own, List.subperm_append_left, pairs_of_piece hsep]
    rw [piecePairs_append_iff _ ht]
    exact (and_iff_right rfl).symm
  | cons p ps =>
    rw [ho] at hperm
    have hbytes := bytes_inOrder q
    rw [ho] at hbytes
    obtain ⟨hhead, hlast⟩ := pieces_append own ht.isSep
    refine iff_of_false (fun h => ?_) fun h => ?_
    · rw [argsText_encodeQuery_cons ho, ← List.append_assoc, pairs_glue _ hbytes, hhead, hlast,
        pairs_eq own, List.append_assoc, List.subperm_append_left] at h
      -- all that could hold the first parameter is the last piece it was appended to
      have hsub := (hperm.append_left (piecePairs (lastPiece own))).subperm.trans h
      rw [List.append_cons, List.subperm_append_right] at hsub
      obtain ⟨kv, -, hkv⟩ := Option.map_eq_some_iff.mp
        (Option.mem_toList.mp (hsub.subset (List.mem_append_right _ (List.mem_singleton_self p))))
      exact glue_ne_right _ p kv hkv
    · rw [h.1] at hperm
      cases hperm.eq_nil

variable {A : Authority} {a : Address A} {r : Rest} {q : ByteText} {own : List Char}
  (hq : a.query = some own) {t : List Char}
include hq

/-- With a query the address has no place for a rest. -/
theorem length_of_carries {u : Url}
    (hu : urlParse A (withArgs (String.ofList (a.chars ++ t)) (encodeQuery q.text)) = some u)
    (hc : Carries a r q u) : r.text.length ≤ 1 := by
  rw [urlParse_of_query a t _ hq] at hu
  obtain ⟨-, -, rfl⟩ := Option.map_eq_some_iff.mp hu
  have := congrArg String.toList hc.path
  simp only [String.toList_ofList, List.self_eq_append_right] at this
  rw [← String.length_toList]
  exact (joined_eq_nil_iff a.path _).mp this

/-- With a query, and no rest, the path is right, and the parameters are as `params_iff` says. -/
theorem carries_iff_of_query (hr : r.text.length ≤ 1) (ht : PathChars t) :
    (∃ u, urlParse A (withArgs (String.ofList (a.chars ++ t)) (encodeQuery q.text)) = some u ∧
        Carries a r q u) ↔
      (parseQuery q.text.toList).pairs = [] ∧ (t = [] ∨ piecePairs (lastPiece own) = []) := by
  have hno : '#' ∉ own ++ (t ++ argsText (encodeQuery q.text)) := by
    simp only [List.mem_append, not_or]
    exact ⟨a.query_plain own hq, fun hc => ht.ne rfl (by decide) _ hc rfl,
      not_mem_argsText (not_mem_encodeQuery q.text)⟩
  have hjoined : joined a.path r.text.toList = [] :=
    (joined_eq_nil_iff a.path _).mpr (String.length_toList ▸ hr)
  rw [urlParse_of_query a t _ hq, after_of_not_mem hno, before_of_not_mem hno,
    ← params_iff own ht q]
  have hpairs : a.pairs = (parseQuery own).pairs := by rw [Address.pairs, hq]
  constructor
  · rintro ⟨u, hu, hc⟩
    obtain ⟨-, -, rfl⟩ := Option.map_eq_some_iff.mp hu
    have := hc.params
    rwa [hpairs, String.toList_ofList] at this
  · intro h
    refine ⟨_, rfl, by rw [hjoined, List.append_nil], ?_⟩
    rwa [hpairs, String.toList_ofList]

end Query

/-! ## When nothing is lost -/

/-- Nothing is lost on the way: the interface's name is not found in the service's and what follows
    it needs no escape; an address with a query gets neither a rest nor parameters. -/
def Intact {A : Authority} (a : Address A) (s i : Name) (r : Rest) (q : ByteText) : Prop :=
  match a.query with
  | none => (i.text = "" ∨ ¬ i.text.toList <:+: s.text.toList) ∧
      (r.text.length ≤ 1 ∨ i.text ≠ "" ∧ IsPlain r.text.toList)
  | some own => (parseQuery q.text.toList).pairs = [] ∧ r.text.length ≤ 1 ∧
      (i.text = "" ∨ ¬ i.text.toList <:+: s.text.toList ∨ piecePairs (lastPiece own) = [])

section Intact

variable {A : Authority} {a : Address A} {s i : Name} {r : Rest} {q : ByteText} {t : List Char}

theorem Appends.pathChars (h : Appends a s i r t) (hr : r.text.length ≤ 1) :
    PathChars t ∧ (t = [] ↔ i.text = "" ∨ ¬ i.text.toList <:+: s.text.toList) := by
  rw [← String.length_toList] at hr
  cases h with
  | empty hi => exact ⟨fun c hc => absurd hc List.not_mem_nil, iff_of_true rfl (Or.inl hi)⟩
  | rest hne hinf =>
    rw [(joined_eq_nil_iff a.chars _).mpr hr]
    exact ⟨fun c hc => absurd hc List.not_mem_nil, iff_of_true rfl (Or.inr hinf)⟩
  | overlap s1 s2 hne hfirst =>
    have hinf : i.text.toList <:+: s.text.toList := hfirst.isInfix
    have hs : ∀ c ∈ s2, c.isAlphanum = true := fun c hc => s.alnum c (hfirst.mem_of_mem hc)
    have hi : i.text.toList ≠ [] := fun h => hne (String.toList_eq_nil_iff.mp h)
    have hlen := List.length_pos_iff.mpr hi
    have hslash : ∀ c ∈ r.text.toList, c = '/' := fun c hc => by
      rcases r.shape_toList with hnil | hhead
      · rw [hnil] at hc
        cases hc
      · obtain ⟨d, hd⟩ := List.length_eq_one_iff.mp
          (Nat.le_antisymm hr (List.length_pos_of_mem hc))
        rw [hd] at hc hhead
        rw [List.mem_singleton.mp hc]
        simpa using hhead
    constructor
    · intro c hc
      have hmem : c ∈ s2 ++ '/' :: (i.text.toList ++ r.text.toList) := by
        unfold joined at hc
        split at hc
        · split at hc
          · exact List.mem_of_mem_drop hc
          · exact hc
        · cases hc
      simp only [List.mem_append, List.mem_cons] at hmem
      rcases hmem with h | h | h | h
      · exact Or.inl (hs c h)
      · exact Or.inr h
      · exact Or.inl (i.alnum c h)
      · exact Or.inr (hslash c h)
    · rw [joined_eq_nil_iff]
      simp only [List.length_append, List.length_cons]
      exact iff_of_false (by omega) (by simp [hne, hinf])

/-- What is appended decides whether the URL carries what it should. -/
theorem carries_iff_intact (h : Appends a s i r t) :
    (∃ u, urlParse A (withArgs (String.ofList (a.chars ++ t)) (encodeQuery q.text)) = some u ∧
      Carries a r q u) ↔ Intact a s i r q := by
  have hlen : r.text.toList.length = r.text.length := String.length_toList
  unfold Intact
  cases hq : a.query with
  | some own =>
    constructor
    · rintro ⟨u, hu, hc⟩
      have hr := length_of_carries hq hu hc
      obtain ⟨hpath, hnil⟩ := h.pathChars hr
      have := (carries_iff_of_query hq hr hpath).mp ⟨u, hu, hc⟩
      rw [hnil, or_assoc] at this
      exact ⟨this.1, hr, this.2⟩
    · rintro ⟨hk, hr, hor⟩
      obtain ⟨hpath, hnil⟩ := h.pathChars hr
      refine (carries_iff_of_query hq hr hpath).mpr ⟨hk, ?_⟩
      rw [hnil, or_assoc]
      exact hor
  | none =>
    cases h with
    | empty hi =>
      simp only [hi, true_or, ne_eq, not_true_eq_false, false_and, or_false, true_and]
      constructor
      · rintro ⟨u, hu, hc⟩
        have hpath := pathOf_of_path hq (fun _ => Or.inl rfl) hu hc.path
        exact hlen ▸ (joined_eq_nil_iff a.path _).mp (Option.some.inj hpath).symm
      · intro hr
        exact carries_of_plain hq ((joined_eq_nil_iff a.path _).mpr (hlen ▸ hr)).symm
          fun c hc => absurd hc List.not_mem_nil
    | rest hne hinf =>
      simp only [hne, hinf, not_false_eq_true, or_true, ne_eq, true_and]
      rw [joined_chars a hq, ← hlen, ← isPlain_joined a.path r.shape_toList]
      constructor
      · rintro ⟨u, hu, hc⟩
        exact (pathOf_eq_self_iff _).mp (pathOf_of_path hq (joined_path_cases r) hu hc.path)
      · exact carries_of_plain hq rfl
    | overlap s1 s2 hne hfirst =>
      refine iff_of_false ?_ (by simp [hne, hfirst.isInfix])
      rintro ⟨u, hu, hc⟩
      rw [joined_chars a hq] at hu
      exact path_ne_of_overlap hq
        (isPlain_of_alnum fun c hc => s.alnum c (hfirst.mem_of_mem hc))
        (fun hc => s.not_mem rfl (hfirst.mem_of_mem hc)) (isPlain_of_alnum i.alnum)
        (fun h => hne (String.toList_eq_nil_iff.mp h)) hu hc.path

end Intact

namespace Gateway

variable (A : Authority)

/-- A request to interface `i` of service `s`, whose version is not 1: `buildRequest` makes a URL
    with the right path and all parameters. -/
def Lossless (a : Address A) (s i : Name) (r : Rest) (q : ByteText) : Prop :=
  ∀ (gitTime : String) (apps : Apps) (now : Int) (id : String) (iface : Interface) (req : Request),
    iface.path = i.text → iface.backend = a.text → iface.service.version ≠ 1 →
    req.path.text = pathText s.text i.text r.text → req.rawQuery = q.text →
    ∃ out, buildRequest (goUrl A) gitTime apps now id iface req = .ok out ∧ Carries a r q out.url

theorem requestTo_eq_ok_iff (N : NetUrl) (gitTime id backend : String) (req : Request)
    (P : Url → Prop) : (∃ out, requestTo N gitTime id backend req = .ok out ∧ P out.url) ↔
      ∃ u, N.parse (withArgs backend (N.encodeQuery req.rawQuery)) = some u ∧ P u := by
  unfold requestTo
  cases N.parse (withArgs backend (N.encodeQuery req.rawQuery)) with
  | none => simp
  | some u => simp

/-- All that matters is what becomes of the text. -/
theorem forall_buildRequest_iff (backend s i r q : String) (P : Url → Prop) :
    (∀ (gitTime : String) (apps : Apps) (now : Int) (id : String) (iface : Interface)
      (req : Request), iface.path = i → iface.backend = backend → iface.service.version ≠ 1 →
      req.path.text = pathText s i r → req.rawQuery = q →
      ∃ out, buildRequest (goUrl A) gitTime apps now id iface req = .ok out ∧ P out.url) ↔
      ∃ u, urlParse A (withArgs (plainBackend (plainInterface i backend) (pathText s i r))
        (encodeQuery q)) = some u ∧ P u := by
  constructor
  · intro h
    have hversion : (0 : Int) ≠ 1 := by decide
    have := h "" (fun _ => none) 0 "" (plainInterface i backend)
      ⟨"GET", ⟨_, Or.inr (Or.inr (head?_pathText s i r))⟩, q, fun _ => ""⟩ rfl rfl hversion rfl rfl
    rwa [buildRequest_plain _ _ _ _ _ _ _ hversion, requestTo_eq_ok_iff, goUrl_parse,
      goUrl_encodeQuery] at this
  · intro h gitTime apps now id iface req hpath hbackend hv hreq hquery
    have hplain : plainBackend iface (pathText s i r) =
        plainBackend (plainInterface i backend) (pathText s i r) := by
      rw [← hpath, ← hbackend]
      rfl
    rwa [buildRequest_plain _ _ _ _ _ _ _ hv, requestTo_eq_ok_iff, goUrl_parse, goUrl_encodeQuery,
      hreq, hquery, hplain]

theorem intact_of_lossless {a : Address A} {s i : Name} {r : Rest} {q : ByteText}
    (h : Lossless A a s i r q) : Intact a s i r q := by
  obtain ⟨t, ht, htext⟩ := exists_appends a s i r
  rw [Lossless, forall_buildRequest_iff, htext] at h
  exact (carries_iff_intact ht).mp h

/-- Nothing is lost exactly when the request is `Intact`. -/
theorem lossless_iff (a : Address A) (s i : Name) (r : Rest) (q : ByteText) :
    Lossless A a s i r q ↔ Intact a s i r q := by
  refine ⟨intact_of_lossless A, fun h => ?_⟩
  obtain ⟨t, ht, htext⟩ := exists_appends a s i r
  rw [Lossless, forall_buildRequest_iff, htext]
  exact (carries_iff_intact ht).mpr h

/-! ## The right path -/

section Right

variable {A} (a : Address A) (s i : Segment) (r : Rest) (q : ByteText)

variable {a s i r q} (hq : a.query = none)
include hq

end Right

/-! ## An address with a query -/

/-- Takes every authority for a host. -/
def anyAuthority : Authority :=
  ⟨fun l => some (String.ofList l), fun _ _ _ _ => by rw [String.ofList_toList]⟩

theorem isAuthority_addr : IsAuthority "10.0.0.1:80".toList := by
  have hall : "10.0.0.1:80".toList.all (fun c => c != '/' && c != '?' && c != '#') = true := by
    decide
  intro c hc
  simpa [and_assoc] using List.all_eq_true.mp hall c hc

theorem not_mem_own : ∀ q ∈ some "k=1".toList, '#' ∉ q := by simp

/-- `http://10.0.0.1:80/p?k=1` -/
def ownQuery : Address anyAuthority where
  scheme := "http".toList
  isScheme := isScheme_http
  authority := "10.0.0.1:80".toList
  isAuthority := isAuthority_addr
  ne := by decide
  host := "10.0.0.1:80"
  parse_host := rfl
  path := "/p".toList
  shape := Or.inr rfl
  no_query := by decide
  no_fragment := by decide
  decoded := "/p".toList
  unescape_path := by decide
  query := some "k=1".toList
  query_plain := not_mem_own

theorem isBytes_x : IsBytes "x=2" := by decide

theorem pairs_x : (parseQuery "x=2".toList).pairs = [("x", "2")] := by
  have hsep : "x=2".toList.all (!isSep ·) = true := by decide
  rw [pairs_of_piece fun c hc => by simpa using List.all_eq_true.mp hsep c hc]
  decide

theorem encodeQuery_x : encodeQuery "x=2" = "x=2" := by
  rw [encodeQuery, pairs_x, encode, List.mergeSort_singleton]
  decide

theorem alnum_of_all {s : String} (h : s.toList.all Char.isAlphanum = true) :
    ∀ c ∈ s.toList, c.isAlphanum = true := List.all_eq_true.mp h

/-- `/s/i?x=2` goes to `/p?k=1?x=2`. -/
theorem own_query_spoiled :
    ¬ Lossless anyAuthority ownQuery ⟨"s", alnum_of_all (by decide)⟩
      ⟨"i", alnum_of_all (by decide)⟩ ⟨"", Or.inl rfl⟩ ⟨"x=2", isBytes_x⟩ ∧
    urlParse anyAuthority (withArgs ownQuery.text (encodeQuery "x=2")) =
      some ⟨"10.0.0.1:80", "/p", "k=1?x=2"⟩ := by
  constructor
  · intro h
    have hnil : (parseQuery "x=2".toList).pairs = [] := (intact_of_lossless anyAuthority h).1
    rw [pairs_x] at hnil
    cases hnil
  · have htext : ownQuery.text = String.ofList (ownQuery.chars ++ []) := by
      rw [List.append_nil]
      rfl
    rw [encodeQuery_x, htext, urlParse_of_query ownQuery [] "x=2" rfl]
    decide

end Gateway

end Doodle.Repeater
