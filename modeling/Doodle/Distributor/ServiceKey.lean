/-
  Service keys: `project.key` of `distributor/project.go` encrypts a project's id together with the
  time, and `parseProjectID` of `distributor/watcher.go` reads the id from the key of a service that
  has announced itself. Both fill the configured `SecretKey` up with zero bytes.

  * `keys_read_back`: every key issued is read back as the id it was issued for, and with a
    `SecretKey` that no key is issued with, none is read either.
-/
import Doodle.Go.Scan
import Doodle.Util.Aes

namespace Doodle.Distributor

open Doodle.Go Doodle.Util

/-! ## The model -/

/-- `aesKey`, the bytes of `SecretKey` and at least one zero byte. -/
def paddedKey (secretKey : List UInt8) : List UInt8 :=
  secretKey ++ List.replicate (8 - secretKey.length % 8) 0

/-- `fmt.Sprintf("%x.%v", p.ID, now)` -/
def keyText (id now : Int64) : List Char := hexText id.toInt ++ '.' :: (toString now.toInt).toList

/-- `project.key` at the time `now`: an error of `AesEncrypt` is logged, and the key is empty. -/
def projectKey (C : Crypto) (secretKey : List UInt8) (id now : Int64) : Res String String :=
  match aesEncrypt C (bytes (keyText id now)) (paddedKey secretKey) with
  | .ok key => .ok key
  | .err _ => .ok ""
  | .panic p => .panic p

inductive KeyError where
  | decrypt (e : String)
  | scan (e : ScanError)
  deriving DecidableEq, Repr

def parseProjectID (C : Crypto) (secretKey : List UInt8) (key : String) : Res KeyError Int64 :=
  match aesDecrypt C key (paddedKey secretKey) with
  | .err e => .err (.decrypt e)
  | .panic p => .panic p
  | .ok buf =>
    match sscanfHex (runes 0 buf) with
    | .error e => .err (.scan e)
    | .ok id => .ok (Int64.ofInt id)

/-! ## Keys are read back -/

/-- The lengths with which the filled-up key has a legal size. -/
theorem newCipher_paddedKey_iff (secretKey : List UInt8) :
    newCipher (paddedKey secretKey) = .ok () ↔ 8 ≤ secretKey.length ∧ secretKey.length ≤ 31 := by
  have hlen : (paddedKey secretKey).length = 8 * (secretKey.length / 8 + 1) := by
    rw [paddedKey, List.length_append, List.length_replicate]
    omega
  have hsizes : (paddedKey secretKey).length = 16 ∨ (paddedKey secretKey).length = 24 ∨
      (paddedKey secretKey).length = 32 ↔ 8 ≤ secretKey.length ∧ secretKey.length ≤ 31 := by
    omega
  unfold newCipher
  split
  case isTrue h => exact iff_of_true rfl (hsizes.mp h)
  case isFalse h => exact iff_of_false (fun h => by cases h) fun h' => h (hsizes.mpr h')

/-- A key of another size is an error of `aes.NewCipher`. -/
theorem newCipher_err {key : List UInt8} (h : newCipher key ≠ .ok ()) :
    ∃ e, newCipher key = .err e := by
  cases hkey : newCipher key with
  | ok u => exact absurd hkey h
  | err e => exact ⟨e, rfl⟩
  | panic p =>
    unfold newCipher at hkey
    split at hkey <;> cases hkey

/-- The id is in front of the dot. -/
theorem sscanfHex_keyText (id now : Int64) :
    sscanfHex (runes 0 (bytes (keyText id now))) = .ok id.toInt := by
  have hsplit : bytes (keyText id now) =
      bytes (hexText id.toInt ++ ['.']) ++ bytes (toString now.toInt).toList := by
    rw [keyText, bytes, bytes, bytes, ← List.flatMap_append, List.append_assoc]
    rfl
  have hascii : ∀ c ∈ hexText id.toInt ++ ['.'], c.toNat < 128 := by
    intro c hc
    rcases List.mem_append.mp hc with hc | hc
    · exact hexText_lt _ c hc
    · rw [List.mem_singleton.mp hc]
      decide
  rw [hsplit, runes_append hascii, List.append_assoc]
  exact sscanfHex_hexText (Int64.le_toInt id) (Int64.toInt_lt id) _

/-- What is asked of the keys issued and read with one `SecretKey`. -/
structure KeysReadBack (C : Crypto) (secretKey : List UInt8) : Prop where
  /-- With 8 to 31 bytes a key is issued, and read as the id. -/
  issued : 8 ≤ secretKey.length ∧ secretKey.length ≤ 31 → ∀ id now : Int64, ∃ key,
    projectKey C secretKey id now = .ok key ∧ parseProjectID C secretKey key = .ok id
  /-- With any other length the key is empty, -/
  notIssued : ¬ (8 ≤ secretKey.length ∧ secretKey.length ≤ 31) → ∀ id now : Int64,
    projectKey C secretKey id now = .ok ""
  /-- and every text is refused. -/
  refused : ¬ (8 ≤ secretKey.length ∧ secretKey.length ≤ 31) → ∀ key, ∃ e,
    parseProjectID C secretKey key = .err e

theorem keys_read_back (C : Crypto) (secretKey : List UInt8) : KeysReadBack C secretKey where
  issued := by
    intro hlen id now
    have hcipher := (newCipher_paddedKey_iff secretKey).mpr hlen
    have hencrypt := aesEncrypt_eq C (bytes (keyText id now)) _ hcipher
    have hdecrypt := aesDecrypt_of_encrypted C (b := bytes (keyText id now)) hcipher
      (C.decode_encode _)
    refine ⟨C.encodeToString (encrypted C (paddedKey secretKey) (bytes (keyText id now))), ?_, ?_⟩
    · simp only [projectKey, hencrypt]
    · simp only [parseProjectID, hdecrypt, sscanfHex_keyText, Int64.ofInt_toInt]
  notIssued := by
    intro hlen id now
    obtain ⟨e, hcipher⟩ := newCipher_err (mt (newCipher_paddedKey_iff secretKey).mp hlen)
    simp only [projectKey, aesEncrypt, hcipher, Res.err_bind]
  refused := by
    intro hlen key
    obtain ⟨e, hcipher⟩ := newCipher_err (mt (newCipher_paddedKey_iff secretKey).mp hlen)
    cases hdecode : C.decodeString key with
    | error e' => exact ⟨.decrypt e', by simp only [parseProjectID, aesDecrypt, hdecode]⟩
    | ok buf =>
      exact ⟨.decrypt e, by simp only [parseProjectID, aesDecrypt, hdecode, hcipher, Res.err_bind]⟩

end Doodle.Distributor
