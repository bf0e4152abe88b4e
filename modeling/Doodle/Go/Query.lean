/-
  Queries and forms: `url.QueryEscape`, `url.QueryUnescape`, `url.ParseQuery` and `Values.Encode`
  of Go 1.9, and what of a URL reaches the server. Texts have one character per byte.

  A text spliced into a query arrives as it is exactly when it is `Safe`: it has no separator,
  no `%`, no `+`, and nothing that ends the query of a URL or the target of a request line.
  `parseQuery_of_safe`: a query of safe texts parses into its pairs.
  `safe_of_values`: a query that parses without an error and gives each key its text has safe texts
  only.
  `parseQuery_encode`: an encoded form parses into its pairs, whatever the texts.
-/
import Mathlib.Data.List.TakeWhile
import Mathlib.Tactic.Common

namespace Doodle.Go

/-! ## Escapes -/

/-- The value of a hexadecimal digit. -/
def unhex (c : Char) : Option Nat :=
  if c.isDigit then some (c.toNat - '0'.toNat)
  else if 'a' ≤ c ∧ c ≤ 'f' then some (c.toNat - 'a'.toNat + 10)
  else if 'A' ≤ c ∧ c ≤ 'F' then some (c.toNat - 'A'.toNat + 10)
  else none

/-- `url.QueryUnescape`; `none` on an invalid escape. -/
def queryUnescape : List Char → Option (List Char)
  | [] => some []
  | c :: cs =>
    if c = '%' then
      match cs with
      | a :: b :: ds =>
        match unhex a, unhex b with
        | some h, some l => (queryUnescape ds).map (Char.ofNat (16 * h + l) :: ·)
        | _, _ => none
      | _ => none
    else (queryUnescape cs).map ((if c = '+' then ' ' else c) :: ·)

/-- An upper case hexadecimal digit. -/
def hexDigit (n : Nat) : Char := (Nat.digitChar n).toUpper

/-- A character that `url.QueryEscape` leaves alone. -/
def unreserved (c : Char) : Bool := c.isAlphanum || c == '-' || c == '_' || c == '.' || c == '~'

def escapeChar (c : Char) : List Char :=
  if unreserved c then [c] else if c = ' ' then ['+']
  else ['%', hexDigit (c.toNat / 16), hexDigit (c.toNat % 16)]

/-- `url.QueryEscape` -/
def queryEscape (cs : List Char) : List Char := cs.flatMap escapeChar

example : queryUnescape (queryEscape "a&b @".toList) = some "a&b @".toList := by decide

theorem length_queryUnescape {cs ds : List Char} (h : queryUnescape cs = some ds) :
    ds.length ≤ cs.length := by
  fun_induction queryUnescape cs generalizing ds with
  | case1 => cases h; exact Nat.le_refl _
  | case2 a b cs h l ha hb ih =>
    obtain ⟨es, he, rfl⟩ := Option.map_eq_some_iff.mp h
    have := ih he
    simp only [List.length_cons]
    omega
  | case3 => cases h
  | case4 => cases h
  | case5 c cs hc ih =>
    obtain ⟨es, he, rfl⟩ := Option.map_eq_some_iff.mp h
    have := ih he
    simp only [List.length_cons]
    omega

theorem length_queryUnescape_percent {cs ds : List Char}
    (h : queryUnescape ('%' :: cs) = some ds) : ds.length < cs.length := by
  unfold queryUnescape at h
  rw [if_pos rfl] at h
  split at h
  · split at h
    · obtain ⟨es, he, rfl⟩ := Option.map_eq_some_iff.mp h
      have := length_queryUnescape he
      simp only [List.length_cons]
      omega
    · cases h
  · cases h

theorem queryUnescape_cons {c : Char} (hc : c ≠ '%') (cs : List Char) : queryUnescape (c :: cs) =
    (queryUnescape cs).map ((if c = '+' then ' ' else c) :: ·) := by
  conv_lhs => unfold queryUnescape
  rw [if_neg hc]

/-- A text unescapes to itself exactly when it has no escape and no `+`. -/
theorem queryUnescape_eq_self_iff (cs : List Char) :
    queryUnescape cs = some cs ↔ ∀ c ∈ cs, c ≠ '%' ∧ c ≠ '+' := by
  induction cs with
  | nil => simp [queryUnescape]
  | cons c cs ih =>
    rw [List.forall_mem_cons, ← ih]
    by_cases hc : c = '%'
    · subst hc
      refine iff_of_false (fun h => ?_) fun h => h.1.1 rfl
      have := length_queryUnescape_percent h
      simp only [List.length_cons] at this
      omega
    · rw [queryUnescape_cons hc, Option.map_eq_some_iff]
      by_cases hp : c = '+'
      · subst hp
        refine iff_of_false ?_ fun h => h.1.2 rfl
        rintro ⟨es, -, hes⟩
        simp at hes
      · simp [hc, hp]

theorem queryUnescape_append_escapeChar {c : Char} (hc : c.toNat < 256) (cs : List Char) :
    queryUnescape (escapeChar c ++ cs) = (queryUnescape cs).map (c :: ·) := by
  have hhex : ∀ n < 16, unhex (hexDigit n) = some n := by decide
  unfold escapeChar
  split
  · next hun =>
    have hpercent : c ≠ '%' := by
      rintro rfl
      exact absurd hun (by decide)
    have hplus : c ≠ '+' := by
      rintro rfl
      exact absurd hun (by decide)
    rw [List.singleton_append, queryUnescape_cons hpercent, if_neg hplus]
  · split
    · next hblank =>
      rw [List.singleton_append, queryUnescape_cons (by decide), if_pos rfl, hblank]
    · have hc' : 16 * (c.toNat / 16) + c.toNat % 16 = c.toNat := by omega
      simp only [List.cons_append, List.nil_append, queryUnescape, if_true,
        hhex _ (show c.toNat / 16 < 16 by omega), hhex _ (show c.toNat % 16 < 16 by omega), hc',
        Char.ofNat_toNat]

/-- What is escaped unescapes to itself. -/
theorem queryUnescape_queryEscape {cs : List Char} (h : ∀ c ∈ cs, c.toNat < 256) :
    queryUnescape (queryEscape cs) = some cs := by
  induction cs with
  | nil => rfl
  | cons c cs ih =>
    rw [List.forall_mem_cons] at h
    rw [queryEscape, List.flatMap_cons, queryUnescape_append_escapeChar h.1]
    show (queryUnescape (queryEscape cs)).map _ = _
    rw [ih h.2]
    rfl

theorem queryEscape_of_isAlphanum {cs : List Char} (h : ∀ c ∈ cs, c.isAlphanum = true) :
    queryEscape cs = cs := by
  induction cs with
  | nil => rfl
  | cons c cs ih =>
    rw [List.forall_mem_cons] at h
    have hc : escapeChar c = [c] := if_pos (by simp [unreserved, h.1])
    rw [queryEscape, List.flatMap_cons, hc]
    exact congrArg (c :: ·) (ih h.2)

/-! ## Parsing -/

/-- The separators of a query. -/
def isSep (c : Char) : Bool := c == '&' || c == ';'

/-- The pairs of a query and whether one was left out for an invalid escape. -/
structure Values where
  err : Bool
  pairs : List (String × String)

/-- A key and its value. -/
def parsePair (piece : List Char) : Option (String × String) :=
  match queryUnescape (piece.takeWhile (· != '=')),
    queryUnescape ((piece.dropWhile (· != '=')).drop 1) with
  | some k, some v => some (String.ofList k, String.ofList v)
  | _, _ => none

def addPiece (piece : List Char) (vs : Values) : Values :=
  if piece = [] then vs
  else match parsePair piece with
    | some kv => { vs with pairs := kv :: vs.pairs }
    | none => { vs with err := true }

/-- `url.ParseQuery` -/
def parseQuery (text : List Char) : Values :=
  (text.splitOnP isSep).foldr addPiece ⟨false, []⟩

/-- `Values.Get`: the first value of the key, or the empty text. -/
def getFirst (pairs : List (String × String)) (key : String) : String :=
  ((pairs.find? fun kv => kv.1 == key).map Prod.snd).getD ""

@[simp] theorem parseQuery_nil : parseQuery [] = ⟨false, []⟩ := rfl

/-- The first piece, then the rest. -/
theorem parseQuery_eq (text : List Char) : parseQuery text =
    addPiece (text.takeWhile (!isSep ·)) (parseQuery ((text.dropWhile (!isSep ·)).drop 1)) := by
  have hsplit := List.takeWhile_append_dropWhile (p := (!isSep ·)) (l := text)
  have hpiece : ∀ c ∈ text.takeWhile (!isSep ·), isSep c = false := by
    intro c hc
    simpa using List.mem_takeWhile_imp hc
  cases hd : text.dropWhile (!isSep ·) with
  | nil =>
    rw [hd, List.append_nil] at hsplit
    rw [hsplit] at hpiece ⊢
    rw [parseQuery, List.splitOnP_eq_singleton hpiece]
    rfl
  | cons c rest =>
    have hc : isSep c = true := by
      have := List.head?_dropWhile_not (!isSep ·) text
      rw [hd] at this
      simpa using this
    rw [hd] at hsplit
    conv_lhs => rw [← hsplit]
    rw [parseQuery, List.splitOnP_append_cons _ _ hc, List.splitOnP_eq_singleton hpiece]
    rfl

/-! ## What of a URL reaches the server -/

/-- The characters that end the query of a URL or the target of a request line. -/
def endsTarget (c : Char) : Bool := c == '#' || c == ' ' || c == '\n'

/-- The query the server reads. A URL with a fragment is sent without it. A blank or a line end
    cuts the request line; `taken` says whether what is left of the request is accepted. -/
def received (taken : List Char → Bool) (text : List Char) : Option (List Char) :=
  if text.all (!endsTarget ·) || taken text then some (text.takeWhile (!endsTarget ·)) else none

/-- A character without a meaning in a query. -/
def isSafe (c : Char) : Bool := !isSep c && !endsTarget c && c != '%' && c != '+'

/-- A text that arrives as it is when it is spliced into a query. -/
def Safe (s : String) : Prop := ∀ c ∈ s.toList, isSafe c = true

instance (s : String) : Decidable (Safe s) :=
  List.decidableBAll (fun c => isSafe c = true) s.toList

/-- `key=text` -/
def rawPair (kv : String × String) : List Char := kv.1.toList ++ '=' :: kv.2.toList

/-- Keys and texts put together as `fmt.Sprintf("k1=%s&k2=%s", …)` does. -/
def rawQuery : List (String × String) → List Char
  | [] => []
  | kv :: ps => rawPair kv ++ ps.flatMap fun kv => '&' :: rawPair kv

/-- A key that stands for itself. -/
def PlainKey (k : String) : Prop := ∀ c ∈ k.toList, isSafe c = true ∧ c ≠ '='

instance (k : String) : Decidable (PlainKey k) :=
  List.decidableBAll (fun c => isSafe c = true ∧ c ≠ '=') k.toList

theorem isSafe_of_isAlphanum {c : Char} (h : c.isAlphanum = true) : isSafe c = true := by
  by_contra hno
  simp only [isSafe, isSep, endsTarget, Bool.and_eq_true, Bool.not_eq_true', Bool.or_eq_false_iff,
    beq_eq_false_iff_ne, bne_iff_ne, not_and_or, not_not] at hno
  rcases hno with (((hc | hc) | (hc | hc) | hc) | hc) | hc
  all_goals
    subst hc
    exact absurd h (by decide)

theorem plainKey_of_isAlphanum {k : String} (h : ∀ c ∈ k.toList, c.isAlphanum = true) :
    PlainKey k := fun c hc => by
  refine ⟨isSafe_of_isAlphanum (h c hc), ?_⟩
  rintro rfl
  exact absurd (h _ hc) (by decide)

/-- A decimal is safe. -/
theorem safe_repr (n : Int) : Safe n.repr := by
  have hdigit : ∀ m : Nat, ∀ c ∈ Nat.toDigits 10 m, isSafe c = true := by
    intro m c hc
    have hd := Nat.isDigit_of_mem_toDigits (by decide) (by decide) hc
    exact isSafe_of_isAlphanum (by simp [Char.isAlphanum, hd])
  intro c hc
  cases n with
  | ofNat m =>
    rw [Int.repr, Nat.toList_repr] at hc
    exact hdigit m c hc
  | negSucc m =>
    rw [Int.repr, String.toList_append, Nat.toList_repr] at hc
    rcases List.mem_append.mp hc with hc | hc
    · rw [List.mem_singleton.mp hc]
      rfl
    · exact hdigit _ c hc

/-- The query of these pairs as the server parses it. -/
def parsed (ps : List (String × String)) : Values :=
  parseQuery ((rawQuery ps).takeWhile (!endsTarget ·))

/-- A character of a piece that is neither cut off nor split. -/
def isPlain (c : Char) : Bool := !isSep c && !endsTarget c

theorem isPlain_iff {c : Char} : isPlain c = true ↔ isSep c = false ∧ endsTarget c = false := by
  simp [isPlain]

theorem isPlain_of_isSafe {c : Char} (h : isSafe c = true) : isPlain c = true := by
  simp only [isSafe, Bool.and_eq_true] at h
  simp only [isPlain, Bool.and_eq_true]
  exact h.1.1

theorem isPlain_key {k : List Char} (hk : ∀ c ∈ k, isSafe c = true ∧ c ≠ '=') :
    ∀ c ∈ k ++ ['='], isPlain c = true := by
  intro c hc
  rcases List.mem_append.mp hc with hc | hc
  · exact isPlain_of_isSafe (hk c hc).1
  · rw [List.mem_singleton.mp hc]
    rfl

/-- A pair of safe texts is neither cut off nor split. -/
theorem isPlain_rawPair {k v : String} (hk : PlainKey k) (hv : Safe v) :
    ∀ c ∈ rawPair (k, v), isPlain c = true := by
  intro c hc
  have hassoc : rawPair (k, v) = (k.toList ++ ['=']) ++ v.toList := by simp [rawPair]
  rw [hassoc] at hc
  rcases List.mem_append.mp hc with hc | hc
  · exact isPlain_key hk c hc
  · exact isPlain_of_isSafe (hv c hc)

theorem takeWhile_isPlain_append {v tail : List Char} (htail : tail = [] ∨ tail.head? = some '&') :
    (v ++ tail).takeWhile isPlain = v.takeWhile isPlain := by
  have hstop : tail.takeWhile isPlain = [] := by
    rcases htail with rfl | h
    · rfl
    · obtain ⟨t, rfl⟩ : ∃ t, tail = '&' :: t := by
        cases tail with
        | nil => cases h
        | cons c t => exact ⟨t, by simpa using h⟩
      rfl
  rw [List.takeWhile_append]
  split
  · next hlen => rw [hstop, List.append_nil, (List.takeWhile_prefix _).eq_of_length hlen]
  · rfl

/-- The first piece of what arrives of a key, a text and whatever follows. -/
theorem firstPiece {k : List Char} (hk : ∀ c ∈ k, isSafe c = true ∧ c ≠ '=') (v : List Char)
    {tail : List Char} (htail : tail = [] ∨ tail.head? = some '&') :
    (((k ++ '=' :: v) ++ tail).takeWhile (!endsTarget ·)).takeWhile (!isSep ·) =
      k ++ '=' :: v.takeWhile isPlain := by
  have hboth : (fun c => decide ((!isSep c) = true ∧ (!endsTarget c) = true)) = isPlain := by
    funext c
    simp [isPlain]
  rw [List.takeWhile_takeWhile, hboth]
  have hassoc : (k ++ '=' :: v) ++ tail = (k ++ ['=']) ++ (v ++ tail) := by simp
  rw [hassoc, List.takeWhile_append_of_pos (isPlain_key hk), takeWhile_isPlain_append htail]
  simp

theorem parsePair_raw {k : List Char} (hk : ∀ c ∈ k, isSafe c = true ∧ c ≠ '=') (v : List Char) :
    parsePair (k ++ '=' :: v) =
      (queryUnescape v).map fun r => (String.ofList k, String.ofList r) := by
  have hne : ∀ c ∈ k, (c != '=') = true := fun c hc => by simp [(hk c hc).2]
  have hself : queryUnescape k = some k := by
    rw [queryUnescape_eq_self_iff]
    intro c hc
    have := (hk c hc).1
    simp only [isSafe, Bool.and_eq_true, bne_iff_ne] at this
    exact ⟨this.1.2, this.2⟩
  unfold parsePair
  rw [List.takeWhile_append_of_pos hne, List.dropWhile_append_of_pos hne]
  simp only [List.takeWhile_cons, List.dropWhile_cons, bne_self_eq_false, Bool.false_eq_true,
    if_false, List.append_nil, List.drop_succ_cons, List.drop_zero, hself]
  cases queryUnescape v with
  | none => rfl
  | some r => rfl

theorem addPiece_raw {k : List Char} (hk : ∀ c ∈ k, isSafe c = true ∧ c ≠ '=') (v : List Char)
    (vs : Values) : addPiece (k ++ '=' :: v) vs =
      match queryUnescape v with
      | some r => { vs with pairs := (String.ofList k, String.ofList r) :: vs.pairs }
      | none => { vs with err := true } := by
  have hne : k ++ '=' :: v ≠ [] := by simp
  rw [addPiece, if_neg hne, parsePair_raw hk]
  cases queryUnescape v with
  | none => rfl
  | some r => rfl

section Raw

variable {k : String} {ps : List (String × String)}

theorem tail_cases (ps : List (String × String)) :
    (ps.flatMap fun kv => '&' :: rawPair kv) = [] ∨
      (ps.flatMap fun kv => '&' :: rawPair kv).head? = some '&' := by
  cases ps with
  | nil => exact Or.inl rfl
  | cons kv ps => exact Or.inr rfl

/-- What arrives after the first separator. -/
def afterFirst (ps : List (String × String)) : List Char :=
  (((rawQuery ps).takeWhile (!endsTarget ·)).dropWhile (!isSep ·)).drop 1

/-- The first pair as the server reads it, whatever the texts are. -/
theorem parsed_cons (hk : PlainKey k) (v : String) (ps : List (String × String)) :
    parsed ((k, v) :: ps) =
      match queryUnescape (v.toList.takeWhile isPlain) with
      | some r => ⟨(parseQuery (afterFirst ((k, v) :: ps))).err,
        (k, String.ofList r) :: (parseQuery (afterFirst ((k, v) :: ps))).pairs⟩
      | none => ⟨true, (parseQuery (afterFirst ((k, v) :: ps))).pairs⟩ := by
  rw [parsed, parseQuery_eq, afterFirst, rawQuery, rawPair, firstPiece hk v.toList (tail_cases ps),
    addPiece_raw hk, String.ofList_toList]

theorem isPlain_of_safe {v : String} (hv : Safe v) : v.toList.takeWhile isPlain = v.toList := by
  rw [List.takeWhile_eq_self_iff]
  exact fun c hc => isPlain_of_isSafe (hv c hc)

theorem queryUnescape_of_safe {v : String} (hv : Safe v) :
    queryUnescape v.toList = some v.toList := by
  rw [queryUnescape_eq_self_iff]
  intro c hc
  have := hv c hc
  simp only [isSafe, Bool.and_eq_true, bne_iff_ne] at this
  exact ⟨this.1.2, this.2⟩

/-- A safe text is read as it is, and the rest as if it stood alone. -/
theorem parsed_cons_of_safe (hk : PlainKey k) {v : String} (hv : Safe v)
    (ps : List (String × String)) :
    parsed ((k, v) :: ps) = ⟨(parsed ps).err, (k, v) :: (parsed ps).pairs⟩ := by
  have hplain : ∀ c ∈ k.toList ++ '=' :: v.toList, (!endsTarget c) = true ∧ (!isSep c) = true := by
    intro c (hc : c ∈ rawPair (k, v))
    obtain ⟨hsep, hend⟩ := isPlain_iff.mp (isPlain_rawPair hk hv c hc)
    simp [hsep, hend]
  have harrive : ((k.toList ++ '=' :: v.toList) ++ ps.flatMap fun kv => '&' :: rawPair kv).takeWhile
      (!endsTarget ·) = (k.toList ++ '=' :: v.toList) ++
        (ps.flatMap fun kv => '&' :: rawPair kv).takeWhile (!endsTarget ·) :=
    List.takeWhile_append_of_pos fun c hc => (hplain c hc).1
  rw [parsed, parseQuery_eq, rawQuery, rawPair, firstPiece hk v.toList (tail_cases ps),
    isPlain_of_safe hv, addPiece_raw hk, queryUnescape_of_safe hv, harrive,
    List.dropWhile_append_of_pos fun c hc => (hplain c hc).2]
  simp only [String.ofList_toList]
  cases ps with
  | nil => rfl
  | cons kv ps => rfl

/-- A query of safe texts parses into its pairs. -/
theorem parseQuery_of_safe (hkeys : ∀ kv ∈ ps, PlainKey kv.1) (hsafe : ∀ kv ∈ ps, Safe kv.2) :
    parsed ps = ⟨false, ps⟩ := by
  induction ps with
  | nil => rfl
  | cons kv ps ih =>
    rw [List.forall_mem_cons] at hkeys hsafe
    rw [parsed_cons_of_safe hkeys.1 hsafe.1, ih hkeys.2 hsafe.2]

/-- A text that is cut or split is longer than what is read of it. -/
theorem safe_of_unescape {v : String}
    (h : queryUnescape (v.toList.takeWhile isPlain) = some v.toList) : Safe v := by
  have hall : v.toList.takeWhile isPlain = v.toList :=
    (List.takeWhile_prefix _).eq_of_length_le (length_queryUnescape h)
  rw [hall] at h
  intro c hc
  have hpc := (queryUnescape_eq_self_iff v.toList).mp h c hc
  have hplain := List.takeWhile_eq_self_iff.mp hall c hc
  simp only [isPlain, Bool.and_eq_true] at hplain
  simp only [isSafe, Bool.and_eq_true, bne_iff_ne]
  exact ⟨⟨hplain, hpc.1⟩, hpc.2⟩

theorem safe_of_first {v : String} {r : List Char} {pairs : List (String × String)}
    (hun : queryUnescape (v.toList.takeWhile isPlain) = some r)
    (hv : getFirst ((k, String.ofList r) :: pairs) k = v) : Safe v := by
  have hr : r = v.toList := by
    rw [← hv]
    simp [getFirst]
  exact safe_of_unescape (hr ▸ hun)

/-- A first text that is read as it is, without an error, is safe. -/
theorem safe_of_head (hk : PlainKey k) {v : String} (herr : (parsed ((k, v) :: ps)).err = false)
    (hv : getFirst (parsed ((k, v) :: ps)).pairs k = v) : Safe v := by
  cases hun : queryUnescape (v.toList.takeWhile isPlain) with
  | none =>
    rw [parsed_cons hk, hun] at herr
    cases herr
  | some r =>
    rw [parsed_cons hk, hun] at hv
    exact safe_of_first hun hv

theorem received_of_safe (taken : List Char → Bool) (hkeys : ∀ kv ∈ ps, PlainKey kv.1)
    (hsafe : ∀ kv ∈ ps, Safe kv.2) :
    received taken (rawQuery ps) = some ((rawQuery ps).takeWhile (!endsTarget ·)) := by
  have hpair : ∀ kv ∈ ps, ∀ c ∈ rawPair kv, (!endsTarget c) = true := by
    intro kv hkv c hc
    simp [(isPlain_iff.mp (isPlain_rawPair (hkeys kv hkv) (hsafe kv hkv) c hc)).2]
  have hall : (rawQuery ps).all (!endsTarget ·) = true := by
    rw [List.all_eq_true]
    cases ps with
    | nil => intro c hc; cases hc
    | cons kv ps =>
      intro c hc
      rcases List.mem_append.mp hc with hc | hc
      · exact hpair kv List.mem_cons_self c hc
      · obtain ⟨kv', hkv', hc⟩ := List.mem_flatMap.mp hc
        rcases List.mem_cons.mp hc with rfl | hc
        · rfl
        · exact hpair kv' (List.mem_cons_of_mem _ hkv') c hc
  rw [received, hall]
  rfl

/-- When the query parses without an error and every text not known to be safe is read as it is,
    all texts are safe. -/
theorem safe_of_values (hkeys : ∀ kv ∈ ps, PlainKey kv.1) (hnodup : (ps.map Prod.fst).Nodup)
    (herr : (parsed ps).err = false)
    (hvals : ∀ kv ∈ ps, Safe kv.2 ∨ getFirst (parsed ps).pairs kv.1 = kv.2) :
    ∀ kv ∈ ps, Safe kv.2 := by
  induction ps with
  | nil => simp
  | cons kv ps ih =>
    obtain ⟨k, v⟩ := kv
    rw [List.forall_mem_cons] at hkeys hvals
    rw [List.map_cons, List.nodup_cons] at hnodup
    have hv : Safe v := hvals.1.elim id (safe_of_head hkeys.1 herr)
    rw [parsed_cons_of_safe hkeys.1 hv] at herr hvals
    refine List.forall_mem_cons.mpr ⟨hv, ih hkeys.2 hnodup.2 herr fun kv hkv => ?_⟩
    refine (hvals.2 kv hkv).imp_right fun h => ?_
    have hne : (k == kv.1) = false := by
      rw [beq_eq_false_iff_ne]
      rintro rfl
      exact hnodup.1 (List.mem_map.mpr ⟨kv, hkv, rfl⟩)
    rwa [getFirst, List.find?_cons, hne] at h

/-- A value is no longer than the query it is read from. -/
theorem length_le_of_mem_parseQuery (n : Nat) : ∀ t : List Char, t.length ≤ n →
    ∀ kv ∈ (parseQuery t).pairs, kv.2.toList.length ≤ t.length := by
  induction n with
  | zero =>
    intro t ht kv hkv
    rw [List.eq_nil_of_length_eq_zero (Nat.le_zero.mp ht)] at hkv
    cases hkv
  | succ n ih =>
    intro t ht kv hkv
    have hrest : ((t.dropWhile (!isSep ·)).drop 1).length ≤ t.length - 1 := by
      have := (List.dropWhile_sublist (!isSep ·) (l := t)).length_le
      rw [List.length_drop]
      omega
    rw [parseQuery_eq, addPiece] at hkv
    have htail : kv ∈ (parseQuery ((t.dropWhile (!isSep ·)).drop 1)).pairs →
        kv.2.toList.length ≤ t.length := by
      intro h
      have := ih _ (by omega) kv h
      omega
    split at hkv
    · exact htail hkv
    · split at hkv
      · next kv' hpair =>
        rcases List.mem_cons.mp hkv with rfl | h
        · unfold parsePair at hpair
          split at hpair
          · next k v _ hv =>
            cases hpair
            have hlen := length_queryUnescape hv
            have hdrop := (List.dropWhile_sublist (· != '=')
              (l := t.takeWhile (!isSep ·))).length_le
            have htake := (List.takeWhile_sublist (!isSep ·) (l := t)).length_le
            rw [List.length_drop] at hlen
            rw [String.toList_ofList]
            omega
          · cases hpair
        · exact htail h
      · exact htail hkv

theorem length_afterFirst (hk : PlainKey k) (v : String) :
    (afterFirst [(k, v)]).length ≤ v.toList.length - 1 := by
  have hkey : ∀ c ∈ k.toList ++ ['='], (!endsTarget c) = true ∧ (!isSep c) = true := by
    intro c hc
    obtain ⟨hsep, hend⟩ := isPlain_iff.mp (isPlain_key hk c hc)
    simp [hsep, hend]
  have hraw : rawQuery [(k, v)] = (k.toList ++ ['=']) ++ v.toList := by
    simp [rawQuery, rawPair]
  rw [afterFirst, hraw, List.takeWhile_append_of_pos fun c hc => (hkey c hc).1,
    List.dropWhile_append_of_pos fun c hc => (hkey c hc).2, List.length_drop]
  have htake := (List.takeWhile_sublist (!endsTarget ·) (l := v.toList)).length_le
  have hdrop := (List.dropWhile_sublist (!isSep ·)
    (l := v.toList.takeWhile (!endsTarget ·))).length_le
  omega

/-- A text that is all of a query, and is read as it is even past errors, is safe. -/
theorem safe_of_getFirst (hk : PlainKey k) {v : String}
    (hv : getFirst (parsed [(k, v)]).pairs k = v) : Safe v := by
  cases hun : queryUnescape (v.toList.takeWhile isPlain) with
  | some r =>
    rw [parsed_cons hk, hun] at hv
    exact safe_of_first hun hv
  | none =>
    -- the pair was left out, so the value is read from what follows its first separator
    exfalso
    have hne : v.toList ≠ [] := by
      intro h
      rw [h] at hun
      cases hun
    have hpos := List.length_pos_iff.mpr hne
    rw [parsed_cons hk, hun, getFirst] at hv
    cases hf : (parseQuery (afterFirst [(k, v)])).pairs.find? fun kv => kv.1 == k with
    | none =>
      rw [hf] at hv
      rw [← hv] at hne
      exact hne rfl
    | some kv =>
      rw [hf] at hv
      have hlen := length_le_of_mem_parseQuery _ _ (Nat.le_refl _) kv
        (List.mem_of_find?_eq_some hf)
      have hafter := length_afterFirst hk v
      have heq : kv.2 = v := hv
      rw [heq] at hlen
      omega

end Raw

/-! ## Forms -/

/-- A key and its text, escaped. -/
def escapePair (kv : String × String) : String × String :=
  (String.ofList (queryEscape kv.1.toList), String.ofList (queryEscape kv.2.toList))

/-- `Values.Encode`: the pairs sorted by key. -/
def encode (ps : List (String × String)) : List Char :=
  rawQuery ((ps.mergeSort fun a b => a.1 ≤ b.1).map escapePair)

theorem queryEscape_plain {cs : List Char} (h : ∀ c ∈ cs, c.toNat < 256) :
    ∀ c ∈ queryEscape cs, isSep c = false ∧ c ≠ '=' := by
  have hhex : ∀ n < 16, isSep (hexDigit n) = false ∧ hexDigit n ≠ '=' := by decide
  intro c hc
  obtain ⟨d, hd, hcd⟩ := List.mem_flatMap.mp hc
  have hbyte := h d hd
  unfold escapeChar at hcd
  split at hcd
  · next hun =>
    obtain rfl := List.mem_singleton.mp hcd
    constructor
    · by_contra hsep
      simp only [isSep, Bool.not_eq_false, Bool.or_eq_true, beq_iff_eq] at hsep
      rcases hsep with rfl | rfl
      · exact absurd hun (by decide)
      · exact absurd hun (by decide)
    · rintro rfl
      exact absurd hun (by decide)
  · split at hcd
    · rw [List.mem_singleton.mp hcd]
      decide
    · simp only [List.mem_cons, List.not_mem_nil, or_false] at hcd
      rcases hcd with rfl | rfl | rfl
      · decide
      · exact hhex _ (by omega)
      · exact hhex _ (by omega)

/-- A text of bytes. -/
def IsBytes (s : String) : Prop := ∀ c ∈ s.toList, c.toNat < 256

instance (s : String) : Decidable (IsBytes s) :=
  List.decidableBAll (fun c : Char => c.toNat < 256) s.toList

/-- A text off the wire. -/
structure ByteText where
  text : String
  bytes : IsBytes text

/-- An escaped pair is read as it was. -/
theorem parsePair_escapePair {kv : String × String} (hk : IsBytes kv.1) (hv : IsBytes kv.2) :
    parsePair (rawPair (escapePair kv)) = some kv := by
  have hne : ∀ c ∈ queryEscape kv.1.toList, (c != '=') = true := fun c hc => by
    simp [(queryEscape_plain hk c hc).2]
  unfold parsePair rawPair escapePair
  simp only [String.toList_ofList]
  rw [List.takeWhile_append_of_pos hne, List.dropWhile_append_of_pos hne]
  simp only [List.takeWhile_cons, List.dropWhile_cons, bne_self_eq_false, Bool.false_eq_true,
    if_false, List.append_nil, List.drop_succ_cons, List.drop_zero, queryUnescape_queryEscape hk,
    queryUnescape_queryEscape hv, String.ofList_toList]

theorem isSep_rawPair {kv : String × String} (hk : IsBytes kv.1) (hv : IsBytes kv.2) :
    ∀ c ∈ rawPair (escapePair kv), isSep c = false := by
  intro c hc
  simp only [rawPair, escapePair, String.toList_ofList, List.mem_append, List.mem_cons] at hc
  rcases hc with hc | rfl | hc
  · exact (queryEscape_plain hk c hc).1
  · rfl
  · exact (queryEscape_plain hv c hc).1

theorem parseQuery_escaped {ps : List (String × String)}
    (h : ∀ kv ∈ ps, IsBytes kv.1 ∧ IsBytes kv.2) :
    parseQuery (rawQuery (ps.map escapePair)) = ⟨false, ps⟩ := by
  induction ps with
  | nil => rfl
  | cons kv ps ih =>
    rw [List.forall_mem_cons] at h
    have hpiece : ∀ c ∈ rawPair (escapePair kv), (!isSep c) = true := fun c hc => by
      rw [isSep_rawPair h.1.1 h.1.2 c hc]
      rfl
    have hne : rawPair (escapePair kv) ≠ [] := by simp [rawPair]
    have hstop : ((ps.map escapePair).flatMap fun kv => '&' :: rawPair kv).takeWhile (!isSep ·) =
        [] := by cases ps <;> rfl
    have hrest : (((ps.map escapePair).flatMap fun kv => '&' :: rawPair kv).dropWhile
        (!isSep ·)).drop 1 = rawQuery (ps.map escapePair) := by cases ps <;> rfl
    rw [List.map_cons, rawQuery, parseQuery_eq, List.takeWhile_append_of_pos hpiece,
      List.dropWhile_append_of_pos hpiece, hstop, hrest, List.append_nil, ih h.2, addPiece,
      if_neg hne, parsePair_escapePair h.1.1 h.1.2]

/-- An encoded form parses into its pairs, sorted by key. -/
theorem parseQuery_encode {ps : List (String × String)}
    (h : ∀ kv ∈ ps, IsBytes kv.1 ∧ IsBytes kv.2) :
    parseQuery (encode ps) = ⟨false, ps.mergeSort fun a b => a.1 ≤ b.1⟩ :=
  parseQuery_escaped fun kv hkv => h kv ((List.mergeSort_perm ps _).mem_iff.mp hkv)

/-- Under keys that occur once, a key gets its value. -/
theorem getFirst_of_mem {ps : List (String × String)} (hnodup : (ps.map Prod.fst).Nodup)
    {k v : String} (h : (k, v) ∈ ps) : getFirst ps k = v := by
  induction ps with
  | nil => cases h
  | cons kv ps ih =>
    rw [List.map_cons, List.nodup_cons] at hnodup
    rcases List.mem_cons.mp h with rfl | h
    · simp [getFirst]
    · have hne : (kv.1 == k) = false := by
        rw [beq_eq_false_iff_ne]
        rintro rfl
        exact hnodup.1 (List.mem_map.mpr ⟨_, h, rfl⟩)
      rw [getFirst, List.find?_cons, hne]
      exact ih hnodup.2 h

/-- A value of an encoded form is read back. -/
theorem getFirst_encode {ps : List (String × String)}
    (h : ∀ kv ∈ ps, IsBytes kv.1 ∧ IsBytes kv.2) (hnodup : (ps.map Prod.fst).Nodup) {k v : String}
    (hkv : (k, v) ∈ ps) : getFirst (parseQuery (encode ps)).pairs k = v := by
  have hperm := List.mergeSort_perm ps fun a b => decide (a.1 ≤ b.1)
  rw [parseQuery_encode h]
  exact getFirst_of_mem ((hperm.map Prod.fst).nodup_iff.mpr hnodup) (hperm.mem_iff.mpr hkv)

end Doodle.Go
