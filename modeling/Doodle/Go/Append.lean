/-
  A query put after another text without a separator.

  * `pairs_append`: whatever follows a query changes its last piece only.
  * `parsePair_glue`: a pair after `?` is read into the piece before it, and what comes of it is
    not the pair (`glue_ne_right`).
  * `pairs_glue`: so of an encoded query after `?` all pairs are there but the first.
  * `bytes_parseQuery`: a query of bytes has pairs of bytes.
-/
import Mathlib.Data.List.DropRight
import Doodle.Go.Query
import Doodle.Go.Strings

namespace Doodle.Go

/-! ## Pieces -/

/-- The pair of a piece, if it has one. -/
def piecePairs (piece : List Char) : List (String × String) :=
  if piece = [] then [] else (parsePair piece).toList

/-- A query without its last piece. -/
def headPieces (q : List Char) : List Char := q.rdropWhile (!isSep ·)

def lastPiece (q : List Char) : List Char := q.rtakeWhile (!isSep ·)

theorem mem_piecePairs {piece : List Char} {kv : String × String} :
    kv ∈ piecePairs piece ↔ piece ≠ [] ∧ parsePair piece = some kv := by
  unfold piecePairs
  split
  · next h => simp [h]
  · next h => simp [h]

theorem pairs_addPiece (piece : List Char) (vs : Values) :
    (addPiece piece vs).pairs = piecePairs piece ++ vs.pairs := by
  unfold addPiece piecePairs
  split
  · rfl
  · cases parsePair piece <;> rfl

theorem pairs_parseQuery (text : List Char) :
    (parseQuery text).pairs = (text.splitOnP isSep).flatMap piecePairs := by
  unfold parseQuery
  induction text.splitOnP isSep with
  | nil => rfl
  | cons piece pieces ih => rw [List.foldr_cons, pairs_addPiece, ih, List.flatMap_cons]

theorem pairs_append_sep {c : Char} (hc : isSep c = true) (a b : List Char) :
    (parseQuery (a ++ c :: b)).pairs = (parseQuery a).pairs ++ (parseQuery b).pairs := by
  simp only [pairs_parseQuery]
  rw [List.splitOnP_append_cons _ _ hc, List.flatMap_append]

theorem pairs_of_piece {piece : List Char} (h : ∀ c ∈ piece, isSep c = false) :
    (parseQuery piece).pairs = piecePairs piece := by
  rw [pairs_parseQuery, List.splitOnP_eq_singleton h, List.flatMap_singleton]

theorem isSep_of_mem_lastPiece {q : List Char} {c : Char} (h : c ∈ lastPiece q) :
    isSep c = false := by
  simpa using List.mem_rtakeWhile_imp h

/-- A text without separators makes the last piece longer. -/
theorem pieces_append (q : List Char) {t : List Char} (h : ∀ c ∈ t, isSep c = false) :
    headPieces (q ++ t) = headPieces q ∧ lastPiece (q ++ t) = lastPiece q ++ t := by
  have hrev : ∀ c ∈ t.reverse, (!isSep c) = true := fun c hc => by
    rw [h c (List.mem_reverse.mp hc)]
    rfl
  constructor
  · rw [headPieces, List.rdropWhile, List.reverse_append, List.dropWhile_append_of_pos hrev]
    rfl
  · rw [lastPiece, List.rtakeWhile, List.reverse_append, List.takeWhile_append_of_pos hrev,
      List.reverse_append, List.reverse_reverse]
    rfl

/-- What follows a query changes its last piece only. -/
theorem pairs_append (q t : List Char) : (parseQuery (q ++ t)).pairs =
    (parseQuery (headPieces q)).pairs ++ (parseQuery (lastPiece q ++ t)).pairs := by
  have hq : headPieces q ++ lastPiece q = q := List.rdropWhile_append_rtakeWhile
  by_cases hnil : headPieces q = []
  · rw [hnil, List.nil_append] at hq
    rw [hnil, hq]
    rfl
  · obtain ⟨c, hc, hhead⟩ : ∃ c, isSep c = true ∧ headPieces q = (headPieces q).dropLast ++ [c] :=
      ⟨_, by simpa [headPieces] using List.rdropWhile_last_not (!isSep ·) q hnil,
        (List.dropLast_append_getLast hnil).symm⟩
    have hpairs : (parseQuery (headPieces q)).pairs =
        (parseQuery (headPieces q).dropLast).pairs := by
      conv_lhs => rw [hhead, pairs_append_sep hc, parseQuery_nil]
      exact List.append_nil _
    have htext : q ++ t = (headPieces q).dropLast ++ c :: (lastPiece q ++ t) := by
      conv_lhs => rw [← hq, hhead]
      simp
    rw [htext, pairs_append_sep hc, hpairs]

/-- The pairs of a query, those of its last piece apart. -/
theorem pairs_eq (q : List Char) : (parseQuery q).pairs =
    (parseQuery (headPieces q)).pairs ++ piecePairs (lastPiece q) := by
  have h := pairs_append q []
  rwa [List.append_nil, List.append_nil, pairs_of_piece fun c => isSep_of_mem_lastPiece] at h

/-! ## Unescaping a text in two parts -/

theorem queryUnescape_append {u u' : List Char} (h : queryUnescape u = some u') (w : List Char) :
    queryUnescape (u ++ w) = (queryUnescape w).map (u' ++ ·) := by
  fun_induction queryUnescape u generalizing u' with
  | case1 =>
    obtain rfl := Option.some.inj h
    simp
  | case2 a b ds x y ha hb ih =>
    obtain ⟨es, he, rfl⟩ := Option.map_eq_some_iff.mp h
    simp only [List.cons_append, queryUnescape, if_true, ha, hb, ih he, Option.map_map]
    rfl
  | case3 => cases h
  | case4 => cases h
  | case5 c cs hc ih =>
    obtain ⟨es, he, rfl⟩ := Option.map_eq_some_iff.mp h
    rw [List.cons_append, queryUnescape_cons hc, ih he, Option.map_map]
    rfl

/-- A character that can stand in no escape separates what is unescaped. -/
theorem queryUnescape_append_cons {c : Char} (hhex : unhex c = none) (hc : c ≠ '%' ∧ c ≠ '+')
    (u w : List Char) : queryUnescape (u ++ c :: w) =
      (queryUnescape u).bind fun u' => (queryUnescape w).map fun w' => u' ++ c :: w' := by
  cases hu : queryUnescape u with
  | some u' =>
    rw [queryUnescape_append hu, queryUnescape_cons hc.1, if_neg hc.2, Option.map_map]
    rfl
  | none =>
    -- the escape that is invalid stays so
    show _ = none
    fun_induction queryUnescape u with
    | case1 => cases hu
    | case2 a b ds x y ha hb ih =>
      simp only [List.cons_append, queryUnescape, if_true, ha, hb,
        ih (Option.map_eq_none_iff.mp hu), Option.map_none]
    | case3 a b ds hno =>
      simp only [List.cons_append, queryUnescape, if_true]
    | case4 cs hno =>
      cases cs with
      | nil => cases w <;> simp [queryUnescape, hhex]
      | cons a cs =>
        cases cs with
        | nil => cases ha : unhex a <;> simp [queryUnescape, hhex, ha]
        | cons b ds => exact absurd rfl (hno a b ds)
    | case5 d cs hd ih =>
      rw [List.cons_append, queryUnescape_cons hd, ih (Option.map_eq_none_iff.mp hu)]
      rfl

/-! ## A pair after `?` -/

/-- What becomes of the pair of a piece when `?` and another pair follow it. -/
def glue (piece : List Char) (p kv : String × String) : String × String :=
  if '=' ∈ piece then (kv.1, kv.2 ++ "?" ++ p.1 ++ "=" ++ p.2) else (kv.1 ++ "?" ++ p.1, p.2)

theorem parsePair_eq (piece : List Char) : parsePair piece =
    (queryUnescape (before '=' piece)).bind fun k =>
      (queryUnescape (after '=' piece)).map fun v => (String.ofList k, String.ofList v) := by
  unfold parsePair before after
  cases queryUnescape (piece.takeWhile (· != '=')) <;>
    cases queryUnescape ((piece.dropWhile (· != '=')).drop 1) <;> rfl

section Glue

variable (piece : List Char) {p : String × String} (hk : IsBytes p.1) (hv : IsBytes p.2)
include hk hv

theorem queryUnescape_rawPair : queryUnescape (rawPair (escapePair p)) =
    some (p.1.toList ++ '=' :: p.2.toList) := by
  simp only [rawPair, escapePair, String.toList_ofList]
  rw [queryUnescape_append_cons (by decide) (by decide), queryUnescape_queryEscape hk,
    queryUnescape_queryEscape hv]
  rfl

/-- A pair after `?` is read into the piece before it: into its value, if it has one. -/
theorem parsePair_glue : parsePair (piece ++ '?' :: rawPair (escapePair p)) =
    (parsePair piece).map (glue piece p) := by
  have hq : ∀ u w, queryUnescape (u ++ '?' :: w) = (queryUnescape u).bind fun u' =>
      (queryUnescape w).map fun w' => u' ++ '?' :: w' :=
    queryUnescape_append_cons (by decide) (by decide)
  simp only [parsePair_eq]
  by_cases he : '=' ∈ piece
  · rw [before_append_of_mem he, after_append_of_mem he, hq, queryUnescape_rawPair hk hv]
    cases queryUnescape (before '=' piece) with
    | none => rfl
    | some k =>
      cases queryUnescape (after '=' piece) with
      | none => rfl
      | some v => simp [glue, he, String.ofList_append, String.append_assoc, String.ofList_cons]
  · have hno : '=' ∉ piece ++ '?' :: queryEscape p.1.toList := by
      intro h
      rcases List.mem_append.mp h with h | h
      · exact he h
      · rcases List.mem_cons.mp h with h | h
        · exact absurd h (by decide)
        · exact (queryEscape_plain hk _ h).2 rfl
    have htext : piece ++ '?' :: rawPair (escapePair p) =
        (piece ++ '?' :: queryEscape p.1.toList) ++ '=' :: queryEscape p.2.toList := by
      simp [rawPair, escapePair]
    rw [htext, before_append_cons hno, after_append_cons hno, hq, before_of_not_mem he,
      after_of_not_mem he, queryUnescape_queryEscape hk, queryUnescape_queryEscape hv]
    cases queryUnescape piece with
    | none => rfl
    | some k =>
      simp [glue, he, queryUnescape, String.ofList_append, String.append_assoc,
        String.ofList_cons]

end Glue

theorem glue_ne_right (piece : List Char) (p kv : String × String) : glue piece p kv ≠ p := by
  have hone : "?".length = 1 := rfl
  unfold glue
  intro h
  split at h
  · have := congrArg (fun x => x.2.length) h
    simp only [String.length_append, hone] at this
    omega
  · have := congrArg (fun x => x.1.length) h
    simp only [String.length_append, hone] at this
    omega

/-- An encoded query after `?`: its first pair goes into the last piece of the text before it. -/
theorem pairs_glue (q : List Char) {p : String × String} {ps : List (String × String)}
    (h : ∀ kv ∈ p :: ps, IsBytes kv.1 ∧ IsBytes kv.2) :
    (parseQuery (q ++ '?' :: rawQuery ((p :: ps).map escapePair))).pairs =
      (parseQuery (headPieces q)).pairs ++
        (((parsePair (lastPiece q)).map (glue (lastPiece q) p)).toList ++ ps) := by
  rw [List.forall_mem_cons] at h
  have hpiece : (parseQuery (lastPiece q ++ '?' :: rawPair (escapePair p))).pairs =
      ((parsePair (lastPiece q)).map (glue (lastPiece q) p)).toList := by
    have hsep : ∀ c ∈ lastPiece q ++ '?' :: rawPair (escapePair p), isSep c = false := by
      intro c hc
      rcases List.mem_append.mp hc with hc | hc
      · exact isSep_of_mem_lastPiece hc
      · rcases List.mem_cons.mp hc with rfl | hc
        · rfl
        · exact isSep_rawPair h.1.1 h.1.2 c hc
    rw [pairs_of_piece hsep, piecePairs, if_neg (by simp), parsePair_glue _ h.1.1 h.1.2]
  rw [pairs_append]
  refine congrArg ((parseQuery (headPieces q)).pairs ++ ·) ?_
  cases ps with
  | nil =>
    rw [List.append_nil, ← hpiece]
    simp [rawQuery]
  | cons p' ps =>
    have htext : lastPiece q ++ '?' :: rawQuery ((p :: p' :: ps).map escapePair) =
        (lastPiece q ++ '?' :: rawPair (escapePair p)) ++
          '&' :: rawQuery ((p' :: ps).map escapePair) := by
      simp [rawQuery]
    rw [htext, pairs_append_sep (by decide), hpiece, parseQuery_escaped h.2]

/-! ## A plain text after a piece -/

theorem parsePair_append {piece t : List Char} {kv : String × String}
    (h : parsePair piece = some kv) (ht : ∀ c ∈ t, c ≠ '=' ∧ c ≠ '%' ∧ c ≠ '+') :
    parsePair (piece ++ t) = some (if '=' ∈ piece then (kv.1, kv.2 ++ String.ofList t)
      else (kv.1 ++ String.ofList t, kv.2)) := by
  have hself : queryUnescape t = some t :=
    (queryUnescape_eq_self_iff t).mpr fun c hc => (ht c hc).2
  rw [parsePair_eq] at h
  obtain ⟨k, hk, h⟩ := Option.bind_eq_some_iff.mp h
  obtain ⟨v, hv, rfl⟩ := Option.map_eq_some_iff.mp h
  rw [parsePair_eq]
  by_cases he : '=' ∈ piece
  · rw [before_append_of_mem he, after_append_of_mem he, hk, queryUnescape_append hv, hself]
    simp [he, String.ofList_append]
  · have hno : '=' ∉ piece ++ t := by
      simp only [List.mem_append, not_or]
      exact ⟨he, fun hc => (ht _ hc).1 rfl⟩
    rw [before_of_not_mem he] at hk
    rw [after_of_not_mem he] at hv
    rw [before_of_not_mem hno, after_of_not_mem hno, queryUnescape_append hk, hself, hv]
    simp [he, String.ofList_append]

/-- A text that is put after a piece changes its pair. -/
theorem parsePair_append_ne {piece t : List Char} {kv : String × String}
    (h : parsePair piece = some kv) (ht : ∀ c ∈ t, c ≠ '=' ∧ c ≠ '%' ∧ c ≠ '+') (hne : t ≠ []) :
    parsePair (piece ++ t) ≠ some kv := by
  have hlen : (String.ofList t).length ≠ 0 := by
    rw [String.length_ofList]
    exact fun h0 => hne (List.length_eq_zero_iff.mp h0)
  rw [parsePair_append h ht]
  intro heq
  have heq := Option.some.inj heq
  split at heq
  · have := congrArg (fun x => x.2.length) heq
    simp only [String.length_append] at this
    omega
  · have := congrArg (fun x => x.1.length) heq
    simp only [String.length_append] at this
    omega

/-! ## Bytes -/

theorem unhex_lt {c : Char} {n : Nat} (h : unhex c = some n) : n < 16 := by
  have hnat : c.toNat = c.val.toNat := rfl
  unfold unhex at h
  split at h
  · next hd =>
    obtain rfl := Option.some.inj h
    simp only [Char.isDigit, Bool.and_eq_true, decide_eq_true_eq, UInt32.le_iff_toNat_le] at hd
    have h9 : '9'.val.toNat = 57 := rfl
    have h0 : '0'.toNat = 48 := rfl
    omega
  · split at h
    · next hl =>
      obtain rfl := Option.some.inj h
      have hf : c.val.toNat ≤ 'f'.val.toNat := UInt32.le_iff_toNat_le.mp hl.2
      have h1 : 'f'.val.toNat = 102 := rfl
      have h2 : 'a'.toNat = 97 := rfl
      omega
    · split at h
      · next hu =>
        obtain rfl := Option.some.inj h
        have hf : c.val.toNat ≤ 'F'.val.toNat := UInt32.le_iff_toNat_le.mp hu.2
        have h1 : 'F'.val.toNat = 70 := rfl
        have h2 : 'A'.toNat = 65 := rfl
        omega
      · cases h

theorem toNat_ofNat_lt {n : Nat} (h : n < 256) : (Char.ofNat n).toNat < 256 := by
  have hv : n.isValidChar := Or.inl (by omega)
  have hof : Char.ofNat n = Char.ofNatAux n hv := dif_pos hv
  have hn : (Char.ofNat n).toNat = n := by
    rw [hof]
    exact UInt32.toNat_ofNatLT
  omega

theorem bytes_queryUnescape {cs ds : List Char} (h : queryUnescape cs = some ds)
    (hb : ∀ c ∈ cs, c.toNat < 256) : ∀ c ∈ ds, c.toNat < 256 := by
  fun_induction queryUnescape cs generalizing ds with
  | case1 =>
    obtain rfl := Option.some.inj h
    exact hb
  | case2 a b es x y ha hb' ih =>
    obtain ⟨fs, hf, rfl⟩ := Option.map_eq_some_iff.mp h
    have hx := unhex_lt ha
    have hy := unhex_lt hb'
    refine List.forall_mem_cons.mpr ⟨?_, ih hf fun c hc => hb c (by simp [hc])⟩
    exact toNat_ofNat_lt (by omega)
  | case3 => cases h
  | case4 => cases h
  | case5 c cs hc ih =>
    obtain ⟨es, he, rfl⟩ := Option.map_eq_some_iff.mp h
    rw [List.forall_mem_cons] at hb
    refine List.forall_mem_cons.mpr ⟨?_, ih he hb.2⟩
    split
    · decide
    · exact hb.1

theorem mem_of_mem_splitOnP {p : Char → Bool} {l piece : List Char} (h : piece ∈ l.splitOnP p) :
    ∀ c ∈ piece, c ∈ l := by
  induction l generalizing piece with
  | nil =>
    intro c hc
    rw [List.splitOnP_nil, List.mem_singleton] at h
    exact h ▸ hc
  | cons x l ih =>
    rw [List.splitOnP_cons_eq_if_modifyHead] at h
    split at h
    · rcases List.mem_cons.mp h with rfl | h
      · exact fun c hc => absurd hc List.not_mem_nil
      · exact fun c hc => List.mem_cons_of_mem x (ih h c hc)
    · obtain ⟨first, pieces, hs⟩ := List.exists_cons_of_ne_nil (List.splitOnP_ne_nil p l)
      rw [hs, List.modifyHead_cons] at h
      rw [hs] at ih
      rcases List.mem_cons.mp h with rfl | h
      · intro c hc
        rcases List.mem_cons.mp hc with rfl | hc
        · exact List.mem_cons_self
        · exact List.mem_cons_of_mem x (ih List.mem_cons_self c hc)
      · exact fun c hc => List.mem_cons_of_mem x (ih (List.mem_cons_of_mem _ h) c hc)

/-- The pairs of a query of bytes are of bytes. -/
theorem bytes_parseQuery {text : String} (h : IsBytes text) :
    ∀ kv ∈ (parseQuery text.toList).pairs, IsBytes kv.1 ∧ IsBytes kv.2 := by
  intro kv hkv
  rw [pairs_parseQuery] at hkv
  obtain ⟨piece, hpiece, hkv⟩ := List.mem_flatMap.mp hkv
  have hbytes : ∀ c ∈ piece, c.toNat < 256 := fun c hc => h c (mem_of_mem_splitOnP hpiece c hc)
  obtain ⟨-, hpair⟩ := mem_piecePairs.mp hkv
  rw [parsePair_eq] at hpair
  obtain ⟨k, hk, hpair⟩ := Option.bind_eq_some_iff.mp hpair
  obtain ⟨v, hv, rfl⟩ := Option.map_eq_some_iff.mp hpair
  unfold IsBytes
  simp only [String.toList_ofList]
  exact ⟨bytes_queryUnescape hk fun c hc => hbytes c ((List.takeWhile_sublist _).subset hc),
    bytes_queryUnescape hv fun c hc => hbytes c
      ((List.dropWhile_sublist _).subset (List.mem_of_mem_drop hc))⟩

end Doodle.Go
