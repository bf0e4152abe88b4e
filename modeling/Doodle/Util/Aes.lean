/-
  `AesEncrypt` and `AesDecrypt` of `util/utils.go`, and `binary.Varint`, with which tokens carry
  an id.

  `crypto/aes` and `encoding/base64` are the parameter `Crypto`: for each key a permutation of
  16-byte blocks, and a text encoding that decodes to what was encoded. Chaining, padding and
  the checks around them are the source's: `CryptBlocks` panics on input that is not whole
  blocks, and the slice in `PKCS5UnPadding` panics when the last byte exceeds the length.

  * `aes_round_trip`: with a key of a legal size, decryption gives back what was encrypted.
  * `rejects_iff`: which texts are handled as they should be, an error unless encryption produced
    them and never a panic.
-/
import Doodle.Go.Result
import Doodle.Lib.Cbc
import Mathlib.Algebra.Group.Nat.Defs

namespace Doodle.Util

open Doodle.Go Doodle.Lib

/-! ## The standard library -/

/-- `crypto/aes` and `encoding/base64`. -/
structure Crypto where
  encBlock : List UInt8 → Block 16 → Block 16
  decBlock : List UInt8 → Block 16 → Block 16
  dec_enc : ∀ key b, decBlock key (encBlock key b) = b
  enc_dec : ∀ key b, encBlock key (decBlock key b) = b
  encodeToString : List UInt8 → String
  decodeString : String → Except String (List UInt8)
  decode_encode : ∀ b, decodeString (encodeToString b) = .ok b

/-- Some `Crypto` exists: blocks as they are, and a text with one character a byte. -/
instance : Inhabited Crypto where
  default :=
    { encBlock := fun _ b => b
      decBlock := fun _ b => b
      dec_enc := fun _ _ => rfl
      enc_dec := fun _ _ => rfl
      encodeToString := fun b => String.ofList (b.map fun x => Char.ofUInt8 x)
      decodeString := fun s => .ok (s.toList.map fun c => c.toUInt8)
      decode_encode := fun b => by
        have hbyte : ∀ x : UInt8, (Char.ofUInt8 x).toUInt8 = x := UInt8.toUInt8_toUInt32
        simp [Function.comp_def, hbyte] }

/-- The checks of `aes.NewCipher`. -/
def newCipher (key : List UInt8) : Res String Unit :=
  if key.length = 16 ∨ key.length = 24 ∨ key.length = 32 then .ok ()
  else .err ("crypto/aes: invalid key size " ++ toString key.length)

/-- `cipher.BlockMode.CryptBlocks` with the chaining `f`. -/
def cryptBlocks (f : List (Block 16) → List (Block 16)) (src : List UInt8) :
    Res String (List UInt8) :=
  if src.length % 16 = 0 then .ok (joinBlocks (f (cutBlocks 16 (src.length / 16) src)))
  else .panic "crypto/cipher: input not full blocks"

/-! ## Encryption -/

def pkcs5Padding (ciphertext : List UInt8) (blockSize : Nat) : List UInt8 :=
  let padding := blockSize - ciphertext.length % blockSize
  ciphertext ++ List.replicate padding (UInt8.ofNat padding)

def pkcs5UnPadding (origData : List UInt8) : Res String (List UInt8) :=
  match origData.getLast? with
  | none => .err "PKCS5Padding len(origData) <= 0 error"
  | some unpadding =>
    if origData.length < unpadding.toNat then .panic "slice bounds out of range"
    else .ok (origData.take (origData.length - unpadding.toNat))

def aesEncrypt (C : Crypto) (encodeStr key : List UInt8) : Res String String := do
  newCipher key
  let encodeBytes := pkcs5Padding encodeStr 16
  let crypted ← cryptBlocks (cbcEnc Block.xor (C.encBlock key) (headBlock 16 key)) encodeBytes
  pure (C.encodeToString crypted)

def aesDecrypt (C : Crypto) (decodeStr : String) (key : List UInt8) : Res String (List UInt8) :=
  match C.decodeString decodeStr with
  | .error e => .err e
  | .ok decodeBytes => do
    newCipher key
    let origData ← cryptBlocks (cbcDec Block.xor (C.decBlock key) (headBlock 16 key)) decodeBytes
    pkcs5UnPadding origData

/-- `AesKey` -/
def aesKey : List UInt8 := "9F4CrTJJVynV6NJL".toList.map fun c => UInt8.ofNat c.toNat

/-! ## Decryption undoes encryption -/

theorem length_pkcs5Padding (b : List UInt8) :
    (pkcs5Padding b 16).length = 16 * (b.length / 16 + 1) := by
  simp only [pkcs5Padding, List.length_append, List.length_replicate]
  omega

theorem pkcs5UnPadding_pkcs5Padding (b : List UInt8) :
    pkcs5UnPadding (pkcs5Padding b 16) = .ok b := by
  have hpos : 16 - b.length % 16 ≠ 0 := by omega
  have hbyte : (UInt8.ofNat (16 - b.length % 16)).toNat = 16 - b.length % 16 := by
    rw [UInt8.toNat_ofNat']
    omega
  have hlast : (pkcs5Padding b 16).getLast? = some (UInt8.ofNat (16 - b.length % 16)) := by
    simp only [pkcs5Padding, List.getLast?_append, List.getLast?_replicate, if_neg hpos,
      Option.some_or]
  have hlen : (pkcs5Padding b 16).length = b.length + (16 - b.length % 16) := by
    simp only [pkcs5Padding, List.length_append, List.length_replicate]
  have htake : (pkcs5Padding b 16).take b.length = b := by
    simp only [pkcs5Padding, List.take_left]
  have hdiff : b.length + (16 - b.length % 16) - (16 - b.length % 16) = b.length := by omega
  simp only [pkcs5UnPadding, hlast, hbyte, hlen, hdiff, htake]
  rw [if_neg (by omega)]

/-- `CryptBlocks` on whole blocks. -/
theorem cryptBlocks_join (f : List (Block 16) → List (Block 16)) (bs : List (Block 16)) :
    cryptBlocks f (joinBlocks bs) = .ok (joinBlocks (f bs)) := by
  have hdiv : 16 * bs.length / 16 = bs.length := by omega
  simp only [cryptBlocks, length_joinBlocks, Nat.mul_mod_right, if_true, hdiv, cutBlocks_joinBlocks]

/-- The bytes encryption makes of a message: the padded message, chained from the head of the key. -/
def encrypted (C : Crypto) (key msg : List UInt8) : List UInt8 :=
  joinBlocks (cbcEnc Block.xor (C.encBlock key) (headBlock 16 key)
    (cutBlocks 16 (msg.length / 16 + 1) (pkcs5Padding msg 16)))

/-- What `aesEncrypt` returns for a legal key. -/
theorem aesEncrypt_eq (C : Crypto) (b key : List UInt8) (hk : newCipher key = .ok ()) :
    aesEncrypt C b key = .ok (C.encodeToString (encrypted C key b)) := by
  have hjoin := joinBlocks_cutBlocks _ _ (length_pkcs5Padding b)
  have hcrypt := cryptBlocks_join (cbcEnc Block.xor (C.encBlock key) (headBlock 16 key))
    (cutBlocks 16 (b.length / 16 + 1) (pkcs5Padding b 16))
  rw [hjoin] at hcrypt
  simp only [aesEncrypt, hk, Res.ok_bind, hcrypt, Res.pure_eq, encrypted]

/-- A text that decodes to the encryption of a message decrypts to the message. -/
theorem aesDecrypt_of_encrypted (C : Crypto) {s : String} {b key : List UInt8}
    (hk : newCipher key = .ok ()) (hs : C.decodeString s = .ok (encrypted C key b)) :
    aesDecrypt C s key = .ok b := by
  have hchain := cbcDec_cbcEnc Block.xor (C.encBlock key) (C.decBlock key) (C.dec_enc key)
    Block.xor_xor (cutBlocks 16 (b.length / 16 + 1) (pkcs5Padding b 16)) (headBlock 16 key)
  have hjoin := joinBlocks_cutBlocks _ _ (length_pkcs5Padding b)
  simp only [aesDecrypt, hs, encrypted, hk, Res.ok_bind, cryptBlocks_join, hchain, hjoin,
    pkcs5UnPadding_pkcs5Padding]

theorem newCipher_of_length {key : List UInt8}
    (hk : key.length = 16 ∨ key.length = 24 ∨ key.length = 32) : newCipher key = .ok () :=
  if_pos hk

/-- Every message is encrypted, and decryption gives it back. -/
theorem aes_round_trip (C : Crypto) (b key : List UInt8)
    (hk : key.length = 16 ∨ key.length = 24 ∨ key.length = 32) :
    ∃ s, aesEncrypt C b key = .ok s ∧ aesDecrypt C s key = .ok b := by
  have hcipher := newCipher_of_length hk
  exact ⟨_, aesEncrypt_eq C b key hcipher, aesDecrypt_of_encrypted C hcipher (C.decode_encode _)⟩

/-- The varint of 150, as in a token. -/
theorem aes_round_trip_varint : aesKey.length = 16 ∧
    ∃ s, aesEncrypt default [0xac, 0x02] aesKey = .ok s ∧
      aesDecrypt default s aesKey = .ok [0xac, 0x02] :=
  ⟨by decide, aes_round_trip default [0xac, 0x02] aesKey (Or.inl (by decide))⟩

/-! ## What decryption rejects -/

/-- The text decodes to the encryption of some padded message. -/
def Produced (C : Crypto) (key : List UInt8) (s : String) : Prop :=
  ∃ msg, C.decodeString s = .ok (encrypted C key msg)

/-- `AesDecrypt` does not panic on the text, and returns an error unless encryption produced it. -/
def Rejects (C : Crypto) (key : List UInt8) (s : String) : Prop :=
  (∀ p, aesDecrypt C s key ≠ .panic p) ∧ (¬ Produced C key s → ∃ e, aesDecrypt C s key = .err e)

/-- Unpadding has an error for the empty text alone. -/
theorem pkcs5UnPadding_ne_err {data : List UInt8} (h : data ≠ []) (e : String) :
    pkcs5UnPadding data ≠ .err e := by
  unfold pkcs5UnPadding
  rw [List.getLast?_eq_some_getLast h]
  simp only
  split <;> simp

/-- A decoded text that is not empty is decrypted to something or is a panic, never an error. -/
theorem aesDecrypt_ne_err (C : Crypto) {key bytes : List UInt8} {s : String}
    (hk : newCipher key = .ok ()) (hs : C.decodeString s = .ok bytes) (hne : bytes ≠ [])
    (e : String) : aesDecrypt C s key ≠ .err e := by
  have hpos : 0 < bytes.length := List.length_pos_iff.mpr hne
  simp only [aesDecrypt, hs, hk, Res.ok_bind, cryptBlocks]
  by_cases hfull : bytes.length % 16 = 0
  · rw [if_pos hfull, Res.ok_bind]
    refine pkcs5UnPadding_ne_err ?_ e
    rw [← List.length_pos_iff, length_joinBlocks, length_cbcDec, length_cutBlocks]
    omega
  · rw [if_neg hfull, Res.panic_bind]
    simp

/-- The empty text has an error of its own. -/
theorem aesDecrypt_of_empty (C : Crypto) {key : List UInt8} {s : String}
    (hk : newCipher key = .ok ()) (hs : C.decodeString s = .ok []) :
    aesDecrypt C s key = .err "PKCS5Padding len(origData) <= 0 error" := by
  simp only [aesDecrypt, hs, hk, Res.ok_bind]
  rfl

/-- A text is handled as it should be exactly when it is not base64, decodes to nothing, or was
    produced by encryption. Every other text panics or is accepted. -/
theorem rejects_iff (C : Crypto) (key : List UInt8)
    (hk : key.length = 16 ∨ key.length = 24 ∨ key.length = 32) (s : String) :
    Rejects C key s ↔
      (∃ e, C.decodeString s = .error e) ∨ C.decodeString s = .ok [] ∨ Produced C key s := by
  have hcipher := newCipher_of_length hk
  constructor
  · intro h
    cases hs : C.decodeString s with
    | error e => exact Or.inl ⟨e, rfl⟩
    | ok bytes =>
      by_cases hne : bytes = []
      · exact Or.inr (Or.inl (by rw [hne]))
      · refine Or.inr (Or.inr ?_)
        by_contra hnot
        obtain ⟨e, he⟩ := h.2 hnot
        exact aesDecrypt_ne_err C hcipher hs hne e he
  · rintro (⟨e, hs⟩ | hs | ⟨msg, hs⟩)
    · have herr : aesDecrypt C s key = .err e := by
        simp only [aesDecrypt, hs]
      exact ⟨fun p => by rw [herr]; simp, fun _ => ⟨e, herr⟩⟩
    · have herr := aesDecrypt_of_empty C hcipher hs
      exact ⟨fun p => by rw [herr]; simp, fun _ => ⟨_, herr⟩⟩
    · have hok := aesDecrypt_of_encrypted C hcipher hs
      exact ⟨fun p => by rw [hok]; simp, fun hnot => absurd ⟨msg, hs⟩ hnot⟩

/-- The token that encryption produces for the varint of 150. -/
theorem rejects_iff_token : aesKey.length = 16 ∧
    ∃ s, aesEncrypt default [0xac, 0x02] aesKey = .ok s ∧ Rejects default aesKey s :=
  ⟨by decide, _, aesEncrypt_eq default _ _ (newCipher_of_length (Or.inl (by decide))),
    (rejects_iff default aesKey (Or.inl (by decide)) _).mpr
      (Or.inr (Or.inr ⟨_, Crypto.decode_encode _ _⟩))⟩

/-- The text of a single byte is a panic, whatever the cipher. -/
theorem one_byte_panics : ¬ ∃ C : Crypto, Rejects C aesKey (C.encodeToString [0]) := by
  rintro ⟨C, h⟩
  have hk : newCipher aesKey = .ok () := newCipher_of_length (Or.inl (by decide))
  refine h.1 "crypto/cipher: input not full blocks" ?_
  simp only [aesDecrypt, C.decode_encode, hk, Res.ok_bind]
  rfl

/-! ## Varints -/

/-- `binary.Uvarint` with the index `i`, the value `x` and the shift `s` of its loop. -/
def uvarintLoop : List UInt8 → Nat → Nat → Nat → Nat × Int
  | [], _, _, _ => (0, 0)
  | b :: buf, i, x, s =>
    if b.toNat < 0x80 then
      if i > 9 ∨ i = 9 ∧ b.toNat > 1 then (0, -(i + 1))
      else ((x ||| b.toNat <<< s) % 2 ^ 64, i + 1)
    else uvarintLoop buf (i + 1) ((x ||| (b.toNat % 128) <<< s) % 2 ^ 64) (s + 7)

/-- `binary.Varint`: the value and the number of bytes read (not positive on an error). -/
def varint (buf : List UInt8) : Int × Int :=
  let (ux, n) := uvarintLoop buf 0 0 0
  let x : Int := ((ux / 2 : Nat) : Int)
  (if ux % 2 = 0 then x else -x - 1, n)

example : varint [0x02] = (1, 1) := by decide

example : varint [0xac, 0x02, 0x7f] = (150, 2) := by decide

end Doodle.Util
