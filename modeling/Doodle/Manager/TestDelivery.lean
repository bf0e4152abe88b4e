/-
  What a test run delivers.

  `handled` is what the backend's handler finds of a request after `net/http` of Go 1.9 has sent and
  read it over HTTP/1.1: the parameters of the query, the headers and the form of the body. A run
  delivers when each variable is found in its position with the entered value and nothing else,
  and the parameters of the backend's address are there besides the entered ones.

  `delivers_entered_iff`: this is so exactly when a required value is missing, so that nothing is
  sent, or
  - every value in the query is safe, and its name is not in the query yet (an address without a
    query gets `t`);
  - no header has an empty name or is one that the client leaves out, no two are one header, and
    every value is one that the client sends without cutting blanks off;
  - there is no variable in the form, or the method is not GET and the form is not too long;
  - the server takes the request.

  Left open are the limits of the server (`accepts`), the user information of an address, and what
  is read of a request whose first line is cut.
-/
import Mathlib.Data.List.Perm.Subperm
import Doodle.Manager.TestRun
import Doodle.Repeater.Body

namespace Doodle.Manager.TestRun

open Doodle.Go
open Repeater (Address postionURI postionHEADER postionFORM valuesOf firstValue)

/-! ## What the backend's handler finds -/

/-- What is left open of `net/http` on the two sides. -/
structure Http where
  /-- user and password of a URL in base64, if it has them -/
  basicAuth : String → Option String
  /-- a `Content-Type` of a form in the body -/
  isForm : String → Bool
  isForm_contentType : isForm contentType.2 = true
  /-- the server hands the request to a handler: it may refuse it for its size or an `Expect` -/
  accepts : Outgoing → Bool
  /-- the headers and the form when a blank or a line end cuts the first line of the request -/
  cut : Outgoing → (String → List String) × (String → List String)

/-- What the backend's handler reads. -/
structure Received where
  /-- the parameters of `URL.Query()` -/
  query : List (String × String)
  /-- the values of a canonical name -/
  header : String → List String
  postForm : String → List String

section Transport

variable (H : Http) (o : Outgoing)

/-- The transport takes the request. -/
def sends : Bool :=
  (o.scheme = "http" || o.scheme = "https") && o.host ≠ "" &&
    o.header.all fun kv => validHeaderFieldName kv.1 && validHeaderFieldValue kv.2

/-- `Client.send` sets `Authorization` for an address with a user, unless it has a value. -/
def clientHeader : List (String × String) :=
  match H.basicAuth o.url with
  | none => o.header
  | some up =>
    if firstValue (valuesOf o.header "Authorization") = "" then
      (o.header.filter fun kv => kv.1 != "Authorization") ++ [("Authorization", "Basic " ++ up)]
    else o.header

/-- `Header.WriteSubset`. A value with a line end is not sent at all. -/
def written : List (String × String) :=
  ((clientHeader H o).filter fun kv => !reqWriteExcludeHeader.contains kv.1).map
    fun kv => (kv.1, trimString kv.2)

/-- `Request.PostForm`: a GET has none. -/
def postForm : List (String × String) :=
  if o.method = "POST" ∧ H.isForm (firstValue (valuesOf (written H o) "Content-Type")) ∧
      o.body.length ≤ Repeater.NetHttp.maxFormSize then (parseQuery o.body).pairs
  else []

/-- The request on the backend's side. -/
def handled : Option Received :=
  if sends o && H.accepts o then
    let rest :=
      if o.rawQuery.all (!endsTarget ·) then (valuesOf (written H o), valuesOf (postForm H o))
      else H.cut o
    some ⟨(parseQuery (o.rawQuery.takeWhile (!endsTarget ·))).pairs, rest.1, rest.2⟩
  else none

end Transport

/-! ## Values under a key -/

theorem valuesOf_append (ps ps' : List (String × String)) (k : String) :
    valuesOf (ps ++ ps') k = valuesOf ps k ++ valuesOf ps' k := by
  simp [valuesOf]

theorem mem_valuesOf {ps : List (String × String)} {k v : String} :
    v ∈ valuesOf ps k ↔ (k, v) ∈ ps := by
  simp only [valuesOf, List.mem_map, List.mem_filter, beq_iff_eq, Prod.exists, exists_eq_right]

theorem valuesOf_eq_nil {ps : List (String × String)} {k : String} :
    valuesOf ps k = [] ↔ k ∉ ps.map Prod.fst := by
  rw [valuesOf, List.map_eq_nil_iff, List.filter_eq_nil_iff, List.mem_map]
  simp only [beq_iff_eq, not_exists, not_and]

theorem valuesOf_map (f : String → String) (ps : List (String × String)) (k : String) :
    valuesOf (ps.map fun kv => (kv.1, f kv.2)) k = (valuesOf ps k).map f := by
  rw [valuesOf, List.filter_map, List.map_map, valuesOf, List.map_map]
  rfl

theorem valuesOf_filter (p : String → Bool) (ps : List (String × String)) (k : String) :
    valuesOf (ps.filter fun kv => p kv.1) k = if p k then valuesOf ps k else [] := by
  rw [valuesOf, List.filter_filter]
  split
  · next hk =>
    refine congrArg (List.map Prod.snd) (List.filter_congr fun kv _ => ?_)
    by_cases hkv : kv.1 = k
    · simp [hkv, hk]
    · simp [hkv]
  · next hk =>
    rw [List.map_eq_nil_iff, List.filter_eq_nil_iff]
    intro kv _ hkv
    simp only [Bool.and_eq_true, beq_iff_eq] at hkv
    exact hk (hkv.1 ▸ hkv.2)

theorem length_valuesOf (ps : List (String × String)) (k : String) :
    (valuesOf ps k).length = (ps.map Prod.fst).count k := by
  rw [valuesOf, List.length_map, ← List.countP_eq_length_filter, List.count, List.countP_map]
  rfl

theorem valuesOf_of_nodup {ps : List (String × String)} (h : (ps.map Prod.fst).Nodup)
    {kv : String × String} (hkv : kv ∈ ps) : valuesOf ps kv.1 = [kv.2] := by
  have hmem : kv.2 ∈ valuesOf ps kv.1 := mem_valuesOf.mpr hkv
  have hlen : (valuesOf ps kv.1).length = 1 := by
    rw [length_valuesOf]
    exact List.count_eq_one_of_mem h (List.mem_map_of_mem hkv)
  obtain ⟨x, hx⟩ := List.length_eq_one_iff.mp hlen
  rw [hx] at hmem ⊢
  rw [List.mem_singleton.mp hmem]

/-- Keys with one value each are all different. -/
theorem nodup_of_valuesOf {ps : List (String × String)}
    (h : ∀ kv ∈ ps, (valuesOf ps kv.1).length = 1) : (ps.map Prod.fst).Nodup := by
  rw [List.nodup_iff_count_le_one]
  intro k
  by_cases hk : k ∈ ps.map Prod.fst
  · obtain ⟨kv, hkv, rfl⟩ := List.mem_map.mp hk
    rw [← length_valuesOf, h kv hkv]
  · rw [List.count_eq_zero_of_not_mem hk]
    exact Nat.zero_le 1

/-! ## Headers on the way -/

section Written

variable (H : Http) (o : Outgoing)

theorem valuesOf_written (k : String) : valuesOf (written H o) k =
    if k ∈ reqWriteExcludeHeader then [] else (valuesOf (clientHeader H o) k).map trimString := by
  rw [written, valuesOf_map, valuesOf_filter fun k => !reqWriteExcludeHeader.contains k]
  by_cases hk : k ∈ reqWriteExcludeHeader
  · simp [hk]
  · simp [hk]

/-- A header the client does not set itself. -/
theorem valuesOf_clientHeader {k : String} (h : (H.basicAuth o.url).isSome = true →
    k = "Authorization" → firstValue (valuesOf o.header k) ≠ "") :
    valuesOf (clientHeader H o) k = valuesOf o.header k := by
  unfold clientHeader
  cases hb : H.basicAuth o.url with
  | none => rfl
  | some up =>
    simp only
    split
    · next hfirst =>
      have hk : k ≠ "Authorization" := fun hk => by
        subst hk
        exact h (by rw [hb]; rfl) rfl hfirst
      have hlast : valuesOf [("Authorization", "Basic " ++ up)] k = [] :=
        valuesOf_eq_nil.mpr (by simpa using hk)
      rw [valuesOf_append, hlast, List.append_nil, valuesOf_filter fun k => k != "Authorization",
        if_pos (by simpa using hk)]
    · rfl

/-- The header the client sets. -/
theorem valuesOf_authorization {up : String} (hb : H.basicAuth o.url = some up)
    (h : firstValue (valuesOf o.header "Authorization") = "") :
    valuesOf (clientHeader H o) "Authorization" = ["Basic " ++ up] := by
  simp only [clientHeader, hb, if_pos h]
  rw [valuesOf_append, valuesOf_filter fun k => k != "Authorization", if_neg (by simp)]
  rfl

end Written

/-! ## Delivery -/

/-- The values found for a variable in its position. -/
def Received.valuesAt (m : Received) (v : Var) : List String :=
  if v.postion = postionURI then valuesOf m.query v.name
  else if v.postion = postionHEADER then m.header (canonicalHeaderKey v.name)
  else if v.postion = postionFORM then m.postForm v.name
  else []

section Delivery

variable {A : Authority} (H : Http) (t : Case A)

/-- Each variable has the entered value and no other, and the parameters of the address are there
    besides the entered ones. -/
structure Arrived (m : Received) : Prop where
  values : ∀ v ∈ t.vars, m.valuesAt v = [t.val v]
  own : (t.backend.pairs ++ t.entered postionURI).Subperm m.query

/-- The run delivers the values, unless a required one is missing. -/
def Delivers : Prop :=
  t.Missing ∨ ∃ o m, put A t.server t.r = .sent o ∧ handled H o = some m ∧ Arrived t m

/-- No variable is an `Authorization` that the client would set. -/
def KeepsAuth : Prop := (H.basicAuth (String.ofList t.url)).isSome = true →
  ∀ kv ∈ t.entered postionHEADER, canonicalHeaderKey kv.1 = "Authorization" → kv.2 ≠ ""

/-- When a run without a missing value delivers. -/
structure Intact : Prop where
  safe : ∀ kv ∈ t.entered postionURI, Safe kv.2
  new : ∀ kv ∈ t.entered postionURI, kv.1 ∉ t.own.map Prod.fst
  headerText : ∀ kv ∈ t.entered postionHEADER,
    validHeaderFieldValue kv.2 = true ∧ trimString kv.2 = kv.2
  headerName : ∀ kv ∈ t.entered postionHEADER,
    kv.1 ≠ "" ∧ canonicalHeaderKey kv.1 ∉ reqWriteExcludeHeader
  headerOnce : ((t.entered postionHEADER).map fun kv => canonicalHeaderKey kv.1).Nodup
  auth : KeepsAuth H t
  form : t.entered postionFORM ≠ [] → t.method ≠ methodGET ∧
    (rawQuery ((t.entered postionFORM).map escapeValue)).length ≤ Repeater.NetHttp.maxFormSize
  accepted : H.accepts (t.outgoing t.queryText) = true

variable {H t}

/-- The positions one by one. -/
theorem arrived_values_iff {m : Received} : (∀ v ∈ t.vars, m.valuesAt v = [t.val v]) ↔
    (∀ kv ∈ t.entered postionURI, valuesOf m.query kv.1 = [kv.2]) ∧
      (∀ kv ∈ t.entered postionHEADER, m.header (canonicalHeaderKey kv.1) = [kv.2]) ∧
        ∀ kv ∈ t.entered postionFORM, m.postForm kv.1 = [kv.2] := by
  have h01 : postionHEADER ≠ postionURI := by decide
  have h03 : postionFORM ≠ postionURI := by decide
  have h13 : postionFORM ≠ postionHEADER := by decide
  constructor
  · intro h
    refine ⟨fun kv hkv => ?_, fun kv hkv => ?_, fun kv hkv => ?_⟩
    all_goals
      obtain ⟨v, hv, hp, rfl⟩ := t.mem_entered.mp hkv
      have hval := h v hv
    · rwa [Received.valuesAt, if_pos hp] at hval
    · rwa [Received.valuesAt, hp, if_neg h01, if_pos rfl] at hval
    · rwa [Received.valuesAt, hp, if_neg h03, if_neg h13, if_pos rfl] at hval
  · rintro ⟨huri, hheader, hform⟩ v hv
    rcases t.postion v hv with hp | hp | hp
    · rw [Received.valuesAt, if_pos hp]
      exact huri _ (t.mem_entered.mpr ⟨v, hv, hp, rfl⟩)
    · rw [Received.valuesAt, hp, if_neg h01, if_pos rfl]
      exact hheader _ (t.mem_entered.mpr ⟨v, hv, hp, rfl⟩)
    · rw [Received.valuesAt, hp, if_neg h03, if_neg h13, if_pos rfl]
      exact hform _ (t.mem_entered.mpr ⟨v, hv, hp, rfl⟩)

/-! ### The query -/

variable (t) in
/-- What the handler finds in the query. -/
theorem pairs_query : (parseQuery ((before '#' t.queryText).takeWhile (!endsTarget ·))).pairs =
    t.own ++ (parsed (t.entered postionURI)).pairs := by
  have hcut : (before '#' t.queryText).takeWhile (!endsTarget ·) =
      t.queryText.takeWhile (!endsTarget ·) := by
    rw [before, List.takeWhile_takeWhile]
    congr 1
    funext c
    by_cases hc : c = '#'
    · subst hc
      rfl
    · simp [hc]
  rw [hcut]
  exact pairs_spliced t.endsTarget_ownQuery _

/-- When all pairs are there the texts are safe. -/
theorem safe_of_subperm (h : (t.backend.pairs ++ t.entered postionURI).Subperm
    (t.own ++ (parsed (t.entered postionURI)).pairs)) :
    ∀ kv ∈ t.entered postionURI, Safe kv.2 := by
  refine safe_of_mem_parsed (fun kv hkv => t.plainKey_entered hkv) (t.nodup_entered _) ?_
  intro kv hkv
  unfold Case.own Case.ownQuery Address.pairs at h
  cases hq : t.backend.query with
  | some q =>
    rw [hq] at h
    exact Or.inr ((List.subperm_append_left _).mp h |>.subset hkv)
  | none =>
    -- the time is the only other parameter, and it is safe
    rw [hq] at h
    have htime : (parseQuery (rawPair ("t", t.server.now.repr))).pairs =
        [("t", t.server.now.repr)] := pairs_rawPair (by decide) (safe_repr _)
    have hmem := h.subset (List.mem_append_right _ hkv)
    simp only [htime] at hmem
    rcases List.mem_cons.mp hmem with rfl | hmem
    · exact Or.inl (safe_repr _)
    · exact Or.inr hmem

theorem endsTarget_queryText (h : ∀ kv ∈ t.entered postionURI, Safe kv.2) :
    ∀ c ∈ t.queryText, endsTarget c = false := by
  intro c hc
  rcases List.mem_append.mp hc with hc | hc
  · exact t.endsTarget_ownQuery c hc
  · obtain ⟨kv, hkv, hc⟩ := List.mem_flatMap.mp hc
    rcases List.mem_cons.mp hc with rfl | hc
    · rfl
    · exact (isPlain_iff.mp (isPlain_rawPair (t.plainKey_entered hkv) (h kv hkv) c hc)).2

theorem not_mem_queryText (h : ∀ kv ∈ t.entered postionURI, Safe kv.2) : '#' ∉ t.queryText :=
  fun hc => absurd (endsTarget_queryText h _ hc) (by decide)

/-! ### The headers -/

variable (t) in
theorem canonicalHeaderKey_ne {kv : String × String} (h : kv ∈ t.entered postionHEADER) :
    canonicalHeaderKey kv.1 ≠ contentType.1 := by
  intro heq
  have hdash : '-' ∈ (canonicalHeaderKey kv.1).toList := by
    rw [heq]
    decide
  exact absurd (canonicalHeaderKey_alnum (t.alnum_entered h) _ hdash) (by decide)

variable (t) in
/-- The headers of the variables. -/
def headers : List (String × String) := (t.entered postionHEADER).map canonical

variable (t) in
theorem canonical_mem {kv : String × String} (h : kv ∈ t.entered postionHEADER) :
    (canonicalHeaderKey kv.1, kv.2) ∈ headers t :=
  List.mem_map.mpr ⟨kv, h, rfl⟩

theorem valuesOf_outgoing (q : List Char) {kv : String × String}
    (h : kv ∈ t.entered postionHEADER) :
    valuesOf (t.outgoing q).header (canonicalHeaderKey kv.1) =
      valuesOf (headers t) (canonicalHeaderKey kv.1) := by
  have hlast : valuesOf [contentType] (canonicalHeaderKey kv.1) = [] :=
    valuesOf_eq_nil.mpr (by simpa using canonicalHeaderKey_ne t h)
  show valuesOf (headers t ++ [contentType]) _ = _
  rw [valuesOf_append, hlast, List.append_nil]

theorem valuesOf_contentType (q : List Char) :
    valuesOf (written H (t.outgoing q)) contentType.1 = [contentType.2] := by
  have hkeys : contentType.1 ∉ (headers t).map Prod.fst := by
    intro hmem
    obtain ⟨kv, hkv, heq⟩ := List.mem_map.mp hmem
    obtain ⟨kv₀, hkv₀, rfl⟩ := List.mem_map.mp hkv
    exact canonicalHeaderKey_ne t hkv₀ heq
  have hclient : valuesOf (clientHeader H (t.outgoing q)) contentType.1 =
      valuesOf (headers t ++ [contentType]) contentType.1 :=
    valuesOf_clientHeader H _ fun _ h => absurd h (by decide)
  rw [valuesOf_written, if_neg (by decide), hclient, valuesOf_append, valuesOf_eq_nil.mpr hkeys]
  rfl

theorem valuesOf_sent (hauth : KeepsAuth H t) (q : List Char) {kv : String × String}
    (h : kv ∈ t.entered postionHEADER) :
    valuesOf (clientHeader H (t.outgoing q)) (canonicalHeaderKey kv.1) =
      valuesOf (headers t) (canonicalHeaderKey kv.1) := by
  rw [valuesOf_clientHeader, valuesOf_outgoing q h]
  intro hb hkey
  rw [valuesOf_outgoing q h]
  have hmem : kv.2 ∈ valuesOf (headers t) (canonicalHeaderKey kv.1) :=
    mem_valuesOf.mpr (canonical_mem t h)
  cases hv : valuesOf (headers t) (canonicalHeaderKey kv.1) with
  | nil =>
    rw [hv] at hmem
    cases hmem
  | cons first rest =>
    have hfirst : first ∈ valuesOf (headers t) (canonicalHeaderKey kv.1) := by
      rw [hv]
      exact List.mem_cons_self
    obtain ⟨kv₀, hkv₀, heq⟩ := List.mem_map.mp (mem_valuesOf.mp hfirst)
    obtain ⟨hkey₀, rfl⟩ := Prod.mk.inj heq
    exact hauth hb kv₀ hkv₀ (hkey₀.trans hkey)

theorem trimString_basic_ne (up : String) : trimString ("Basic " ++ up) ≠ "" := by
  intro h
  have hnil : (("Basic " ++ up).toList.dropWhile isASCIISpace).rdropWhile isASCIISpace = [] := by
    have := congrArg String.toList h
    rwa [trimString, String.toList_ofList] at this
  have hall := List.rdropWhile_eq_nil_iff.mp hnil
  have hlist : ("Basic " ++ up).toList = 'B' :: ("asic ".toList ++ up.toList) := by simp
  rw [hlist, List.dropWhile_cons_of_neg (by decide)] at hall
  exact absurd (hall 'B' List.mem_cons_self) (by decide)

/-- An `Authorization` without a value is not delivered when the client sets one. -/
theorem keepsAuth_of_values {q : List Char}
    (h : ∀ kv ∈ t.entered postionHEADER,
      valuesOf (written H (t.outgoing q)) (canonicalHeaderKey kv.1) = [kv.2]) : KeepsAuth H t := by
  intro hb kv hkv hkey hempty
  obtain ⟨up, hup⟩ := Option.isSome_iff_exists.mp hb
  have hval := h kv hkv
  rw [valuesOf_written, hkey, if_neg (by decide), hempty] at hval
  by_cases hfirst : firstValue (valuesOf (t.outgoing q).header "Authorization") = ""
  · rw [valuesOf_authorization H _ hup hfirst] at hval
    exact trimString_basic_ne up (List.cons.inj hval).1
  · rw [valuesOf_clientHeader H _ fun _ _ => hfirst] at hval
    have hmem : "" ∈ valuesOf (t.outgoing q).header "Authorization" := by
      rw [← hkey, valuesOf_outgoing q hkv, ← hempty]
      exact mem_valuesOf.mpr (canonical_mem t hkv)
    obtain ⟨x, hx, -⟩ := List.map_eq_singleton_iff.mp hval
    rw [hx] at hmem hfirst
    exact hfirst (List.mem_singleton.mp hmem).symm

/-- When each header has its value. -/
theorem headers_iff (q : List Char) :
    (∀ kv ∈ t.entered postionHEADER,
      valuesOf (written H (t.outgoing q)) (canonicalHeaderKey kv.1) = [kv.2]) ↔
      (∀ kv ∈ t.entered postionHEADER, trimString kv.2 = kv.2) ∧
        (∀ kv ∈ t.entered postionHEADER, canonicalHeaderKey kv.1 ∉ reqWriteExcludeHeader) ∧
          ((t.entered postionHEADER).map fun kv => canonicalHeaderKey kv.1).Nodup ∧
            KeepsAuth H t := by
  have hfst : (headers t).map Prod.fst =
      (t.entered postionHEADER).map fun kv => canonicalHeaderKey kv.1 := by
    rw [headers, List.map_map]
    rfl
  constructor
  · intro h
    have hauth := keepsAuth_of_values h
    have hname : ∀ kv ∈ t.entered postionHEADER,
        canonicalHeaderKey kv.1 ∉ reqWriteExcludeHeader := by
      intro kv hkv hex
      have hval := h kv hkv
      rw [valuesOf_written, if_pos hex] at hval
      cases hval
    have hval : ∀ kv ∈ t.entered postionHEADER,
        (valuesOf (headers t) (canonicalHeaderKey kv.1)).map trimString = [kv.2] := by
      intro kv hkv
      have hval := h kv hkv
      rwa [valuesOf_written, if_neg (hname kv hkv), valuesOf_sent hauth q hkv] at hval
    have hnodup : ((headers t).map Prod.fst).Nodup := by
      refine nodup_of_valuesOf fun kv hkv => ?_
      obtain ⟨kv₀, hkv₀, rfl⟩ := List.mem_map.mp hkv
      have hlen := congrArg List.length (hval kv₀ hkv₀)
      rwa [List.length_map] at hlen
    refine ⟨fun kv hkv => ?_, hname, hfst ▸ hnodup, hauth⟩
    have hone := hval kv hkv
    rw [valuesOf_of_nodup hnodup (canonical_mem t hkv)] at hone
    exact (List.cons.inj hone).1
  · rintro ⟨htrim, hname, hnodup, hauth⟩ kv hkv
    rw [← hfst] at hnodup
    rw [valuesOf_written, if_neg (hname kv hkv), valuesOf_sent hauth q hkv,
      valuesOf_of_nodup hnodup (canonical_mem t hkv), List.map_singleton, htrim kv hkv]

/-! ### The form -/

variable (H t) in
theorem postForm_outgoing (q : List Char) : postForm H (t.outgoing q) =
    if t.method ≠ methodGET ∧ (rawQuery ((t.entered postionFORM).map escapeValue)).length ≤
        Repeater.NetHttp.maxFormSize then t.entered postionFORM else [] := by
  have hescape : (t.entered postionFORM).map escapeValue =
      (t.entered postionFORM).map escapePair := by
    refine List.map_congr_left fun kv hkv => ?_
    rw [escapeValue, escapePair, queryEscape_of_isAlphanum (t.alnum_entered hkv),
      String.ofList_toList]
  have hbytes : ∀ kv ∈ t.entered postionFORM, IsBytes kv.1 ∧ IsBytes kv.2 := by
    intro kv hkv
    refine ⟨fun c hc => ?_, ?_⟩
    · have := toNat_lt_of_isAlphanum (t.alnum_entered hkv c hc)
      omega
    · obtain ⟨v, hv, -, rfl⟩ := t.mem_entered.mp hkv
      exact t.bytes v hv
  have hmethod : (t.outgoing q).method = "POST" ↔ t.method ≠ methodGET := by
    by_cases hm : t.method = methodGET
    · simp [Case.outgoing, hm]
    · simp [Case.outgoing, hm]
  have hct : valuesOf (written H (t.outgoing q)) "Content-Type" = [contentType.2] :=
    valuesOf_contentType q
  have hform : H.isForm (firstValue [contentType.2]) = true := H.isForm_contentType
  have hpairs : (parseQuery (t.outgoing q).body).pairs = t.entered postionFORM := by
    show (parseQuery (rawQuery ((t.entered postionFORM).map escapeValue))).pairs = _
    rw [hescape, parseQuery_escaped hbytes]
  simp only [postForm, hmethod, hct, hform, hpairs, true_and]
  rfl

theorem form_iff (q : List Char) :
    (∀ kv ∈ t.entered postionFORM, valuesOf (postForm H (t.outgoing q)) kv.1 = [kv.2]) ↔
      (t.entered postionFORM ≠ [] → t.method ≠ methodGET ∧
        (rawQuery ((t.entered postionFORM).map escapeValue)).length ≤
          Repeater.NetHttp.maxFormSize) := by
  rw [postForm_outgoing]
  constructor
  · intro h hne
    obtain ⟨kv, hkv⟩ := List.exists_mem_of_ne_nil _ hne
    by_contra hno
    have hval := h kv hkv
    rw [if_neg hno] at hval
    cases hval
  · intro h kv hkv
    rw [if_pos (h (List.ne_nil_of_mem hkv))]
    exact valuesOf_of_nodup (t.nodup_entered _) hkv

/-! ### The run -/

theorem handled_eq_some {o : Outgoing} {m : Received} (h : handled H o = some m) :
    sends o = true ∧ H.accepts o = true ∧
      m.query = (parseQuery (o.rawQuery.takeWhile (!endsTarget ·))).pairs ∧
        ((∀ c ∈ o.rawQuery, endsTarget c = false) →
          m.header = valuesOf (written H o) ∧ m.postForm = valuesOf (postForm H o)) := by
  unfold handled at h
  split at h
  · next hs =>
    obtain rfl := (Option.some.inj h).symm
    rw [Bool.and_eq_true] at hs
    refine ⟨hs.1, hs.2, rfl, fun hend => ?_⟩
    have hall : o.rawQuery.all (!endsTarget ·) = true :=
      List.all_eq_true.mpr fun c hc => by simp [hend c hc]
    simp only [hall, if_true, and_self]
  · cases h

theorem sends_outgoing (q : List Char) : sends (t.outgoing q) = true ↔
    ∀ kv ∈ t.entered postionHEADER, kv.1 ≠ "" ∧ validHeaderFieldValue kv.2 = true := by
  have hhttp : (decide ((t.outgoing q).scheme = "http") ||
      decide ((t.outgoing q).scheme = "https")) = true := by
    rw [Bool.or_eq_true, decide_eq_true_eq, decide_eq_true_eq]
    exact t.isHttp
  have hhost : decide ((t.outgoing q).host ≠ "") = true := decide_eq_true t.host_ne
  have hct : (validHeaderFieldName contentType.1 &&
      validHeaderFieldValue contentType.2) = true := by decide
  rw [sends, hhttp, hhost, Bool.true_and, Bool.true_and]
  simp only [Case.outgoing, List.all_append, List.all_map, List.all_cons, List.all_nil, hct,
    Bool.and_true, List.all_eq_true, Function.comp_apply, canonical, Bool.and_eq_true]
  exact forall₂_congr fun kv hkv =>
    and_congr_left fun _ => validHeaderFieldName_alnum (t.alnum_entered hkv)

/-- The values of the query once all are safe. -/
theorem query_iff (hsafe : ∀ kv ∈ t.entered postionURI, Safe kv.2) :
    (∀ kv ∈ t.entered postionURI,
      valuesOf (t.own ++ (parsed (t.entered postionURI)).pairs) kv.1 = [kv.2]) ↔
        ∀ kv ∈ t.entered postionURI, kv.1 ∉ t.own.map Prod.fst := by
  rw [parseQuery_of_safe (fun kv hkv => t.plainKey_entered hkv) hsafe]
  refine forall₂_congr fun kv hkv => ?_
  rw [valuesOf_append, valuesOf_of_nodup (t.nodup_entered _) hkv, ← valuesOf_eq_nil]
  simp

theorem intact_of_delivers (h : Delivers H t) : t.Missing ∨ Intact H t := by
  by_cases hm : t.Missing
  · exact Or.inl hm
  obtain ⟨o, m, hput, hhandled, hvalues, hown⟩ := h.resolve_left hm
  obtain rfl := t.sent_eq hm hput
  obtain ⟨hsends, haccepts, hquery, hrest⟩ := handled_eq_some hhandled
  obtain ⟨huri, hheader, hform⟩ := arrived_values_iff.mp hvalues
  have hpairs : m.query = t.own ++ (parsed (t.entered postionURI)).pairs :=
    hquery.trans (pairs_query t)
  rw [hpairs] at hown huri
  have hsafe := safe_of_subperm hown
  -- the whole query arrives, so the rest of the request is read as it was written
  rw [before_of_not_mem (not_mem_queryText hsafe)] at hsends haccepts hrest
  obtain ⟨hh, hf⟩ := hrest (endsTarget_queryText hsafe)
  rw [hh] at hheader
  rw [hf] at hform
  obtain ⟨htrim, hname, honce, hauth⟩ := (headers_iff _).mp hheader
  exact Or.inr {
    safe := hsafe
    new := (query_iff hsafe).mp huri
    headerText := fun kv hkv => ⟨((sends_outgoing _).mp hsends kv hkv).2, htrim kv hkv⟩
    headerName := fun kv hkv => ⟨((sends_outgoing _).mp hsends kv hkv).1, hname kv hkv⟩
    headerOnce := honce
    auth := hauth
    form := (form_iff _).mp hform
    accepted := haccepts }

theorem delivers_of_intact (h : t.Missing ∨ Intact H t) : Delivers H t := by
  by_cases hm : t.Missing
  · exact Or.inl hm
  replace h := h.resolve_left hm
  have hend := endsTarget_queryText h.safe
  have hsends : sends (t.outgoing t.queryText) = true :=
    (sends_outgoing _).mpr fun kv hkv => ⟨(h.headerName kv hkv).1, (h.headerText kv hkv).1⟩
  have hall : (t.outgoing t.queryText).rawQuery.all (!endsTarget ·) = true :=
    List.all_eq_true.mpr fun c hc => by simp [hend c hc]
  have hhandled : handled H (t.outgoing t.queryText) =
      some ⟨(parseQuery (t.queryText.takeWhile (!endsTarget ·))).pairs,
        valuesOf (written H (t.outgoing t.queryText)),
        valuesOf (postForm H (t.outgoing t.queryText))⟩ := by
    simp only [handled, hsends, h.accepted, hall, Bool.and_self, if_true]
    rfl
  have hpairs : (parseQuery (t.queryText.takeWhile (!endsTarget ·))).pairs =
      t.own ++ (parsed (t.entered postionURI)).pairs := by
    have := pairs_query t
    rwa [before_of_not_mem (not_mem_queryText h.safe)] at this
  refine Or.inr ⟨_, _, t.put_of_no_fragment hm (not_mem_queryText h.safe), hhandled, ?_, ?_⟩
  · refine arrived_values_iff.mpr ⟨?_, ?_, ?_⟩
    · rw [hpairs]
      exact (query_iff h.safe).mpr h.new
    · exact (headers_iff _).mpr
        ⟨fun kv hkv => (h.headerText kv hkv).2, fun kv hkv => (h.headerName kv hkv).2,
          h.headerOnce, h.auth⟩
    · exact (form_iff _).mpr h.form
  · show (t.backend.pairs ++ _).Subperm (parseQuery (t.queryText.takeWhile (!endsTarget ·))).pairs
    rw [hpairs, parseQuery_of_safe (fun kv hkv => t.plainKey_entered hkv) h.safe]
    refine List.Sublist.subperm (List.Sublist.append ?_ (List.Sublist.refl _))
    unfold Case.own Case.ownQuery Address.pairs
    cases t.backend.query with
    | some q => exact List.Sublist.refl _
    | none => exact List.nil_sublist _

end Delivery

/-- When a test run delivers the entered values. -/
theorem delivers_entered_iff {A : Authority} (H : Http) (t : Case A) :
    Delivers H t ↔ t.Missing ∨ Intact H t :=
  ⟨intact_of_delivers, delivers_of_intact⟩

/-! ## One variable in the query -/

/-- A `net/http` that takes every request. -/
def openHttp : Http where
  basicAuth _ := none
  isForm s := s == contentType.2
  isForm_contentType := beq_self_eq_true _
  accepts _ := true
  cut _ := (fun _ => [], fun _ => [])

theorem no_fragment_none : ∀ q ∈ (none : Option (List Char)), '#' ∉ q := by simp

/-- The address `http://10.0.0.1:80/p`. -/
def plainBackend : Address Repeater.Gateway.anyAuthority :=
  { Repeater.Gateway.ownQuery with query := none, query_plain := no_fragment_none }

/-- A required variable `a` of the query. -/
def requiredVar : Var := ⟨"a", postionURI, true⟩

theorem alnum_requiredVar : ∀ v ∈ [requiredVar], ∀ c ∈ v.name.toList, c.isAlphanum = true := by
  intro v hv
  rw [List.mem_singleton.mp hv]
  exact List.all_eq_true.mp (by decide)

theorem decode_oneVar (value : String) : Util.decodeRequestValue fields (fun _ => none)
    ⟨none, [("id", "7"), ("a", value)]⟩ {} = (none, ⟨7⟩) := by
  have hid : (⟨none, [("id", "7"), ("a", value)]⟩ : Util.Request).formValue "id" = "7" := by
    simp [Util.Request.formValue]
  have hint : parseInt "7" = some 7 := by decide
  simp [Util.decodeRequestValue, fields, Util.decodeFields, Util.decodeField, Util.Request.int?,
    hid, hint]

/-- A run with this value for the variable. -/
def oneVarRun (value : ByteText) : Case Repeater.Gateway.anyAuthority where
  server :=
    ⟨fun _ => none, fun _ => .ok ⟨methodGET, plainBackend.text⟩, fun _ => .ok [requiredVar], 0⟩
  r := ⟨none, [("id", "7"), ("a", value.text)]⟩
  id := ⟨7⟩
  decoded := decode_oneVar value.text
  method := methodGET
  backend := plainBackend
  isHttp := Or.inl (by decide)
  host_ne := by decide
  query_line := fun _ h => absurd h (by simp [plainBackend])
  info := rfl
  vars := [requiredVar]
  vars_eq := rfl
  postion := fun v hv => Or.inl (by rw [List.mem_singleton.mp hv]; rfl)
  alnum := alnum_requiredVar
  distinct := List.nodup_singleton _
  bytes := fun v hv => by rw [List.mem_singleton.mp hv]; exact value.bytes

theorem entered_oneVarRun (value : ByteText) (p : Int) :
    (oneVarRun value).entered p = if p = postionURI then [("a", value.text)] else [] := by
  have hnil : pairsAt (oneVarRun value).r.formValue p [] = [] := rfl
  show pairsAt (oneVarRun value).r.formValue p [requiredVar] = _
  rw [pairsAt_cons, hnil]
  exact if_congr eq_comm rfl rfl

theorem missing_oneVarRun (value : ByteText) : (oneVarRun value).Missing ↔ value.text = "" := by
  constructor
  · rintro ⟨v, hv, hval, -⟩
    rw [List.mem_singleton.mp hv] at hval
    exact hval
  · intro h
    exact ⟨requiredVar, List.mem_singleton_self _, h, rfl⟩

theorem intact_oneVarRun (value : ByteText) :
    Intact openHttp (oneVarRun value) ↔ Safe value.text := by
  have huri := entered_oneVarRun value postionURI
  have hheader : (oneVarRun value).entered postionHEADER = [] := entered_oneVarRun value _
  have hform : (oneVarRun value).entered postionFORM = [] := entered_oneVarRun value _
  have hown : (oneVarRun value).own = [("t", Int.repr 0)] := pairs_rawPair (by decide) (safe_repr 0)
  rw [if_pos rfl] at huri
  constructor
  · intro h
    exact h.safe ("a", value.text) (by rw [huri]; exact List.mem_singleton_self _)
  · intro h
    exact {
      safe := by rw [huri]; simpa using h
      new := by rw [huri, hown]; simp
      headerText := by rw [hheader]; simp
      headerName := by rw [hheader]; simp
      headerOnce := by rw [hheader]; simp
      auth := fun _ => by rw [hheader]; simp
      form := fun hne => absurd hform hne
      accepted := rfl }

/-- A value for the variable is delivered exactly when it is safe; an empty one is not sent. -/
theorem delivers_oneVarRun (value : ByteText) :
    Delivers openHttp (oneVarRun value) ↔ value.text = "" ∨ Safe value.text := by
  rw [← missing_oneVarRun, ← intact_oneVarRun]
  exact ⟨intact_of_delivers, delivers_of_intact⟩

example : Delivers openHttp (oneVarRun ⟨"2", by decide⟩) :=
  (delivers_oneVarRun _).mpr (Or.inr (by decide))

/-- Of `1+1` the backend reads `1 1`. -/
theorem plus_lost : ¬ Delivers openHttp (oneVarRun ⟨"1+1", by decide⟩) := by
  rw [delivers_oneVarRun]
  decide

end Doodle.Manager.TestRun
