/-
  `fmt`: the verb `%x` for an int64, as `Sprintf` writes it and as `Sscanf` reads it in the format
  `"%x."`, of Go 1.9, and the bytes of a text with the runes that `Sscanf` decodes from them.

  * `runes_append`: the bytes of a text without wide characters are read as the text.
  * `sscanfHex_hexText`: a number of 64 bits is read back from its text, whatever follows the dot.
-/
import Doodle.Go.Query
import Mathlib.Algebra.Group.Int.Defs
import Mathlib.Algebra.Group.Nat.Defs
import Mathlib.Data.List.TakeWhile

namespace Doodle.Go

/-! ## Bytes and runes -/

/-- `[]byte(s)` -/
def bytes (s : List Char) : List UInt8 := s.flatMap String.utf8EncodeChar

/-- The tables `first` and `acceptRanges` of `unicode/utf8` for a byte that starts a wide rune: how
    many bytes follow it, and the least and the greatest value of the next one. -/
def leadByte (b : Nat) : Option (Nat × Nat × Nat) :=
  if b < 0xc2 then none
  else if b < 0xe0 then some (1, 0x80, 0xbf)
  else if b = 0xe0 then some (2, 0xa0, 0xbf)
  else if b = 0xed then some (2, 0x80, 0x9f)
  else if b < 0xf0 then some (2, 0x80, 0xbf)
  else if b = 0xf0 then some (3, 0x90, 0xbf)
  else if b < 0xf4 then some (3, 0x80, 0xbf)
  else if b = 0xf4 then some (3, 0x80, 0x8f)
  else none

/-- `utf8.DecodeRune`: the rune, and how many bytes of it follow the first. A byte that starts no
    rune is U+FFFD. -/
def decodeRune (b : UInt8) (bs : List UInt8) : Char × Nat :=
  if b.toNat < 0x80 then (Char.ofNat b.toNat, 0)
  else
    match leadByte b.toNat with
    | none => (Char.ofNat 0xfffd, 0)
    | some (more, lo, hi) =>
      let cont := (bs.take more).map UInt8.toNat
      if cont.length = more ∧ (∀ c ∈ cont.head?, lo ≤ c ∧ c ≤ hi) ∧
          (∀ c ∈ cont.tail, 0x80 ≤ c ∧ c ≤ 0xbf) then
        (Char.ofNat (cont.foldl (fun n c => n * 64 + c % 64) (b.toNat % 2 ^ (6 - more))), more)
      else (Char.ofNat 0xfffd, 0)

/-- The runes of a string, after the first `skip` bytes. -/
def runes : (skip : Nat) → List UInt8 → List Char
  | _, [] => []
  | skip + 1, _ :: bs => runes skip bs
  | 0, b :: bs => (decodeRune b bs).1 :: runes (decodeRune b bs).2 bs

example : runes 0 (bytes "é€😀".toList ++ [0xe2, 0x82]) = "é€😀\uFFFD\uFFFD".toList := by decide

theorem runes_append {s : List Char} (h : ∀ c ∈ s, c.toNat < 128) (bs : List UInt8) :
    runes 0 (bytes s ++ bs) = s ++ runes 0 bs := by
  induction s with
  | nil => rfl
  | cons c s ih =>
    have hc : c.toNat < 128 := h c List.mem_cons_self
    have hsize : c.utf8Size = 1 := Char.utf8Size_eq_one_iff.mpr (by
      rw [UInt32.le_iff_toNat_le]
      exact Nat.le_of_lt_succ hc)
    have hbyte : c.val.toUInt8.toNat = c.toNat := by
      rw [UInt32.toNat_toUInt8]
      exact Nat.mod_eq_of_lt (Nat.lt_trans hc (by decide))
    have hbytes : bytes (c :: s) ++ bs = c.val.toUInt8 :: (bytes s ++ bs) := by
      rw [bytes, List.flatMap_cons, String.utf8EncodeChar_eq_singleton hsize]
      rfl
    have hrune : decodeRune c.val.toUInt8 (bytes s ++ bs) = (c, 0) := by
      rw [decodeRune, hbyte, if_pos hc, Char.ofNat_toNat]
    rw [hbytes, runes, hrune, ih fun c hc => h c (List.mem_cons_of_mem _ hc), List.cons_append]

/-! ## Writing and reading -/

/-- `%x` of an int64: a sign, and the digits of the absolute value. -/
def hexText (x : Int) : List Char :=
  if x < 0 then '-' :: Nat.toDigits 16 (-x).toNat else Nat.toDigits 16 x.toNat

inductive ScanError where
  | newline
  | eof
  | noDigits
  | outOfRange
  | mismatch
  deriving DecidableEq, Repr

/-- The table `space` of `fmt`. -/
def spaceRanges : List (Nat × Nat) :=
  [(0x0009, 0x000d), (0x0020, 0x0020), (0x0085, 0x0085), (0x00a0, 0x00a0), (0x1680, 0x1680),
   (0x2000, 0x200a), (0x2028, 0x2029), (0x202f, 0x202f), (0x205f, 0x205f), (0x3000, 0x3000)]

def isSpace (c : Char) : Bool := spaceRanges.any fun r => r.1 ≤ c.toNat && c.toNat ≤ r.2

/-- `SkipSpace`, for which a newline is no space. -/
def skipSpace : List Char → Except ScanError (List Char)
  | [] => .ok []
  | c :: cs =>
    if c = '\n' then .error .newline
    else if isSpace c then skipSpace cs
    else .ok (c :: cs)

def isHex (c : Char) : Bool := (unhex c).isSome

/-- The number of hexadecimal digits. -/
def hexValue (ds : List Char) : Nat := ds.foldl (fun n c => n * 16 + (unhex c).getD 0) 0

/-- `scanInt` after the sign, and the dot of the format. -/
def scanDigits (negative : Bool) (cs : List Char) : Except ScanError Int :=
  let ds := cs.takeWhile isHex
  if ds = [] then .error (if cs = [] then .eof else .noDigits)
  else if hexValue ds < 2 ^ 63 ∨ negative ∧ hexValue ds = 2 ^ 63 then
    match cs.dropWhile isHex with
    | [] => .error .eof
    | c :: _ =>
      if c = '.' then .ok (if negative then -(hexValue ds : Int) else hexValue ds)
      else .error .mismatch
  else .error .outOfRange

/-- `fmt.Sscanf(s, "%x.", &id)` with an int64: what it leaves in `id`, or the error. -/
def sscanfHex (s : List Char) : Except ScanError Int :=
  match skipSpace s with
  | .error e => .error e
  | .ok [] => .error .eof
  | .ok (c :: cs) =>
    if c = '-' then scanDigits true cs
    else if c = '+' then scanDigits false cs
    else scanDigits false (c :: cs)

example : sscanfHex " -4d2.15".toList = .ok (-1234) := by decide

/-! ## Digits -/

theorem unhex_digitChar {d : Nat} (h : d < 16) : unhex d.digitChar = some d := by
  have hall : ∀ d < 16, unhex d.digitChar = some d := by decide
  exact hall d h

theorem hexValue_concat (ds : List Char) {d : Nat} (h : d < 16) :
    hexValue (ds ++ [d.digitChar]) = hexValue ds * 16 + d := by
  rw [hexValue, List.foldl_append, List.foldl_cons, List.foldl_nil, unhex_digitChar h]
  rfl

/-- The digits of a number: at least one, and digits all of them, with the number's value. -/
theorem toDigits_spec (n : Nat) : (∀ c ∈ Nat.toDigits 16 n, ∃ d < 16, c = Nat.digitChar d) ∧
    hexValue (Nat.toDigits 16 n) = n := by
  induction n using Nat.strongRecOn with
  | ind n ih =>
    by_cases hn : n < 16
    · rw [Nat.toDigits_of_lt_base hn]
      refine ⟨fun c hc => ⟨n, hn, List.mem_singleton.mp hc⟩, ?_⟩
      have := hexValue_concat [] hn
      rw [List.nil_append] at this
      rw [this]
      simp [hexValue]
    · obtain ⟨hdigits, hvalue⟩ := ih (n / 16) (by omega)
      have hmod : n % 16 < 16 := Nat.mod_lt _ (by decide)
      rw [Nat.toDigits_of_base_le (by decide) (by omega)]
      refine ⟨fun c hc => ?_, ?_⟩
      · rcases List.mem_append.mp hc with hc | hc
        · exact hdigits c hc
        · exact ⟨n % 16, hmod, List.mem_singleton.mp hc⟩
      · rw [hexValue_concat _ hmod, hvalue]
        omega

theorem isHex_of_mem_toDigits {n : Nat} {c : Char} (h : c ∈ Nat.toDigits 16 n) :
    isHex c = true := by
  obtain ⟨d, hd, rfl⟩ := (toDigits_spec n).1 c h
  rw [isHex, unhex_digitChar hd]
  rfl

/-- The digits of a number are read up to the dot. -/
theorem scanDigits_toDigits (negative : Bool) (n : Nat) (rest : List Char)
    (hn : n < 2 ^ 63 ∨ negative ∧ n = 2 ^ 63) :
    scanDigits negative (Nat.toDigits 16 n ++ '.' :: rest) =
      .ok (if negative then -(n : Int) else n) := by
  have hhex : ∀ c ∈ Nat.toDigits 16 n, isHex c = true := fun c hc => isHex_of_mem_toDigits hc
  have hdot : isHex '.' = false := by decide
  have htake : (Nat.toDigits 16 n ++ '.' :: rest).takeWhile isHex = Nat.toDigits 16 n := by
    rw [List.takeWhile_append_of_pos hhex, List.takeWhile_cons_of_neg (by simp [hdot]),
      List.append_nil]
  have hdrop : (Nat.toDigits 16 n ++ '.' :: rest).dropWhile isHex = '.' :: rest := by
    rw [List.dropWhile_append_of_pos hhex, List.dropWhile_cons_of_neg (by simp [hdot])]
  unfold scanDigits
  simp only [htake, hdrop, (toDigits_spec n).2, Nat.toDigits_ne_nil, if_false, if_pos hn, if_true]

/-! ## Reading back -/

theorem hexText_lt (x : Int) : ∀ c ∈ hexText x, c.toNat < 128 := by
  have hdigit : ∀ d < 16, (Nat.digitChar d).toNat < 128 := by decide
  have hdigits : ∀ n, ∀ c ∈ Nat.toDigits 16 n, c.toNat < 128 := by
    intro n c hc
    obtain ⟨d, hd, rfl⟩ := (toDigits_spec n).1 c hc
    exact hdigit d hd
  intro c hc
  unfold hexText at hc
  split at hc
  · rcases List.mem_cons.mp hc with rfl | hc
    · decide
    · exact hdigits _ c hc
  · exact hdigits _ c hc

/-- No digit and no sign is a space. -/
theorem skipSpace_of_hex {c : Char} (h : c = '-' ∨ ∃ d < 16, c = Nat.digitChar d)
    (cs : List Char) : skipSpace (c :: cs) = .ok (c :: cs) := by
  have hdigits : ∀ d < 16, Nat.digitChar d ≠ '\n' ∧ isSpace (Nat.digitChar d) = false := by
    decide
  have hplain : c ≠ '\n' ∧ isSpace c = false := by
    rcases h with rfl | ⟨d, hd, rfl⟩
    · decide
    · exact hdigits d hd
  rw [skipSpace, if_neg hplain.1, hplain.2]
  rfl

theorem sscanfHex_hexText {x : Int} (hlo : -2 ^ 63 ≤ x) (hhi : x < 2 ^ 63) (rest : List Char) :
    sscanfHex (hexText x ++ '.' :: rest) = .ok x := by
  unfold hexText
  by_cases hneg : x < 0
  · have hn : (-x).toNat < 2 ^ 63 ∨ (-x).toNat = 2 ^ 63 := by omega
    have hback : -((-x).toNat : Int) = x := by omega
    rw [if_pos hneg, sscanfHex, List.cons_append, skipSpace_of_hex (Or.inl rfl)]
    simp only [if_true]
    rw [scanDigits_toDigits true _ rest (hn.imp_right fun h => ⟨rfl, h⟩), if_pos rfl, hback]
  · have hn : x.toNat < 2 ^ 63 := by omega
    have hback : (x.toNat : Int) = x := by omega
    have hscan := scanDigits_toDigits false _ rest (Or.inl hn)
    -- the first digit is neither a space nor a sign
    cases hds : Nat.toDigits 16 x.toNat with
    | nil => exact absurd hds Nat.toDigits_ne_nil
    | cons c ds =>
      obtain ⟨d, hd, rfl⟩ := (toDigits_spec x.toNat).1 c (hds ▸ List.mem_cons_self)
      have hsign : ∀ d < 16, Nat.digitChar d ≠ '-' ∧ Nat.digitChar d ≠ '+' := by decide
      rw [hds] at hscan
      rw [if_neg hneg, sscanfHex, List.cons_append, skipSpace_of_hex (Or.inr ⟨d, hd, rfl⟩)]
      simp only [if_neg (hsign d hd).1, if_neg (hsign d hd).2]
      rw [← List.cons_append, hscan, if_neg (by decide), hback]

end Doodle.Go
