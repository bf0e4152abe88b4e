/-
  Pairs spliced unescaped after a query, one `&key=text` after another.

  A reader that skips what it cannot unescape may find a text in a place it was not written to:
  `y=1&k=%25zz` as the text of another key gives `k` the value `%zz`. `safe_of_mem_parsed`: still,
  when every pair that was written is read, all texts are safe. A text that is not safe would have
  to be read from inside a longer one, which is not safe either, and no text is the longest.

  `pairs_spliced`: a query with pairs spliced after it is read as its own pairs, then what is read
  of the spliced ones.
-/
import Mathlib.Data.List.MinMax
import Mathlib.Data.List.Nodup
import Doodle.Go.Append

namespace Doodle.Go

/-- What the pairs add to the text of a query. -/
def spliced (ps : List (String × String)) : List Char := ps.flatMap fun kv => '&' :: rawPair kv

theorem spliced_concat (ps : List (String × String)) (kv : String × String) :
    spliced (ps ++ [kv]) = spliced ps ++ '&' :: rawPair kv := by
  simp [spliced]

theorem takeWhile_amp (t : List Char) :
    ('&' :: t).takeWhile (!endsTarget ·) = '&' :: t.takeWhile (!endsTarget ·) := rfl

/-- What is read of a query of its own and of the pairs after it. -/
theorem pairs_spliced {q : List Char} (hq : ∀ c ∈ q, endsTarget c = false)
    (ps : List (String × String)) :
    (parseQuery ((q ++ spliced ps).takeWhile (!endsTarget ·))).pairs =
      (parseQuery q).pairs ++ (parsed ps).pairs := by
  rw [List.takeWhile_append_of_pos fun c hc => by rw [hq c hc]; rfl]
  cases ps with
  | nil => simp [spliced, parsed, rawQuery]
  | cons kv ps =>
    show (parseQuery (q ++ ('&' :: rawQuery (kv :: ps)).takeWhile (!endsTarget ·))).pairs = _
    rw [takeWhile_amp, pairs_append_sep rfl]
    rfl

/-- A safe pair alone. -/
theorem pairs_rawPair {k v : String} (hk : PlainKey k) (hv : Safe v) :
    (parseQuery (rawPair (k, v))).pairs = [(k, v)] := by
  have hsep : ∀ c ∈ rawPair (k, v), isSep c = false := fun c hc =>
    (isPlain_iff.mp (isPlain_rawPair hk hv c hc)).1
  have hne : rawPair (k, v) ≠ [] := by simp [rawPair]
  rw [pairs_of_piece hsep, piecePairs, if_neg hne, rawPair, parsePair_raw hk,
    queryUnescape_of_safe hv]
  simp

/-! ## Where a pair is read -/

theorem mem_parsed_cons {kv kv' : String × String} {ps : List (String × String)}
    (h : kv' ∈ (parsed (kv :: ps)).pairs) :
    kv' ∈ (parsed [kv]).pairs ∨ kv' ∈ (parsed ps).pairs := by
  have hone : rawQuery [kv] = rawPair kv := by simp [rawQuery]
  rw [parsed, rawQuery, List.takeWhile_append] at h
  split at h
  · next hlen =>
    have hend : ∀ c ∈ rawPair kv, endsTarget c = false := by
      have hself := List.takeWhile_eq_self_iff.mp ((List.takeWhile_prefix _).eq_of_length hlen)
      exact fun c hc => by simpa using hself c hc
    have hpairs := pairs_spliced hend ps
    rw [List.takeWhile_append_of_pos fun c hc => by rw [hend c hc]; rfl, spliced] at hpairs
    rw [hpairs] at h
    refine (List.mem_append.mp h).imp_left fun h => ?_
    rw [parsed, hone, (List.takeWhile_prefix _).eq_of_length hlen]
    exact h
  · exact Or.inl (by rwa [parsed, hone])

/-- The pair of a key and a text gives the key what is read of the text; anything else in it is
    shorter than the text. -/
theorem mem_parsed_single {k v : String} (hk : PlainKey k) {kv' : String × String}
    (h : kv' ∈ (parsed [(k, v)]).pairs) :
    kv'.1 = k ∧ queryUnescape (v.toList.takeWhile isPlain) = some kv'.2.toList ∨
      ¬ Safe v ∧ kv'.2.toList.length < v.toList.length := by
  by_cases hsafe : Safe v
  · rw [parsed_cons_of_safe hk hsafe] at h
    obtain rfl : kv' = (k, v) := by simpa [parsed, rawQuery] using h
    refine Or.inl ⟨rfl, ?_⟩
    rw [isPlain_of_safe hsafe, queryUnescape_of_safe hsafe]
  · have hrest : kv' ∈ (parseQuery (afterFirst [(k, v)])).pairs →
        kv'.2.toList.length < v.toList.length := by
      intro hmem
      have hle := length_le_of_mem_parseQuery _ _ (Nat.le_refl _) kv' hmem
      have hafter := length_afterFirst hk v
      have hne : (afterFirst [(k, v)]).length ≠ 0 := fun h0 => by
        rw [List.length_eq_zero_iff.mp h0] at hmem
        cases hmem
      omega
    rw [parsed_cons hk] at h
    cases hun : queryUnescape (v.toList.takeWhile isPlain) with
    | none =>
      rw [hun] at h
      exact Or.inr ⟨hsafe, hrest h⟩
    | some r =>
      rw [hun] at h
      rcases List.mem_cons.mp h with rfl | h
      · exact Or.inl ⟨rfl, by rw [String.toList_ofList]⟩
      · exact Or.inr ⟨hsafe, hrest h⟩

theorem mem_parsed {ps : List (String × String)} (hkeys : ∀ kv ∈ ps, PlainKey kv.1)
    {kv' : String × String} (h : kv' ∈ (parsed ps).pairs) : ∃ kv ∈ ps,
      kv'.1 = kv.1 ∧ queryUnescape (kv.2.toList.takeWhile isPlain) = some kv'.2.toList ∨
        ¬ Safe kv.2 ∧ kv'.2.toList.length < kv.2.toList.length := by
  induction ps with
  | nil => cases h
  | cons kv ps ih =>
    rw [List.forall_mem_cons] at hkeys
    rcases mem_parsed_cons h with h | h
    · exact ⟨kv, List.mem_cons_self, mem_parsed_single hkeys.1 h⟩
    · obtain ⟨kv₁, hmem, hcase⟩ := ih hkeys.2 h
      exact ⟨kv₁, List.mem_cons_of_mem _ hmem, hcase⟩

/-- When every pair whose text is not known to be safe is read, all texts are safe. -/
theorem safe_of_mem_parsed {ps : List (String × String)} (hkeys : ∀ kv ∈ ps, PlainKey kv.1)
    (hnodup : (ps.map Prod.fst).Nodup)
    (h : ∀ kv ∈ ps, Safe kv.2 ∨ kv ∈ (parsed ps).pairs) : ∀ kv ∈ ps, Safe kv.2 := by
  by_contra hnot
  obtain ⟨kv₀, hmem₀, hunsafe₀⟩ : ∃ kv ∈ ps, ¬ Safe kv.2 := by simpa using hnot
  -- the longest of the texts that are not safe
  let length := fun kv : String × String => kv.2.toList.length
  let bad := ps.filter fun kv => ¬ Safe kv.2
  have hbad : ∀ kv, kv ∈ bad ↔ kv ∈ ps ∧ ¬ Safe kv.2 := by simp [bad]
  obtain ⟨kv, hmax⟩ : ∃ kv, kv ∈ bad.argmax length := by
    refine Option.ne_none_iff_exists'.mp fun hnone => ?_
    have hnil := List.argmax_eq_none.mp hnone
    exact List.not_mem_nil (hnil ▸ (hbad kv₀).mpr ⟨hmem₀, hunsafe₀⟩)
  obtain ⟨hmem, hunsafe⟩ := (hbad kv).mp (List.argmax_mem hmax)
  obtain ⟨kv₁, hmem₁, hcase⟩ := mem_parsed hkeys ((h kv hmem).resolve_left hunsafe)
  rcases hcase with ⟨hkey, hread⟩ | ⟨hunsafe₁, hlt⟩
  · obtain rfl := List.inj_on_of_nodup_map hnodup hmem hmem₁ hkey
    exact hunsafe (safe_of_unescape hread)
  · have hle : length kv₁ ≤ length kv :=
      List.le_of_mem_argmax ((hbad kv₁).mpr ⟨hmem₁, hunsafe₁⟩) hmax
    exact absurd hlt (Nat.not_lt.mpr hle)

end Doodle.Go
