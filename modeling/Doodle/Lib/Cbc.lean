/-
  Cipher block chaining over an arbitrary type of blocks, and the cutting of a byte string into
  blocks of `w` bytes.

  `cbcDec_cbcEnc`: with a block decryption that undoes the block encryption and a mask that
  undoes itself, decrypting the chain gives the blocks back. `joinBlocks_cutBlocks` and
  `cutBlocks_joinBlocks`: cutting and joining are inverse on whole blocks.
-/
import Mathlib.Tactic.Common

namespace Doodle.Lib

/-! ## Chaining -/

section Chain

variable {B : Type} (mask : B → B → B)

/-- Encrypt block by block, masking each block with the previous ciphertext block. -/
def cbcEnc (enc : B → B) : B → List B → List B
  | _, [] => []
  | iv, b :: bs => enc (mask b iv) :: cbcEnc enc (enc (mask b iv)) bs

/-- Decrypt block by block, unmasking each block with the previous ciphertext block. -/
def cbcDec (dec : B → B) : B → List B → List B
  | _, [] => []
  | iv, c :: cs => mask (dec c) iv :: cbcDec dec c cs

theorem cbcDec_cbcEnc (enc dec : B → B) (hd : ∀ b, dec (enc b) = b)
    (hm : ∀ a b, mask (mask a b) b = a) (bs : List B) :
    ∀ iv, cbcDec mask dec iv (cbcEnc mask enc iv bs) = bs := by
  induction bs with
  | nil => intro iv; rfl
  | cons b bs ih =>
    intro iv
    simp only [cbcEnc, cbcDec, hd, hm, ih]

theorem length_cbcDec (dec : B → B) (cs : List B) :
    ∀ iv, (cbcDec mask dec iv cs).length = cs.length := by
  induction cs with
  | nil => intro iv; rfl
  | cons c cs ih =>
    intro iv
    simp only [cbcDec, List.length_cons, ih]

end Chain

/-! ## Blocks of bytes -/

/-- A block of `w` bytes. -/
abbrev Block (w : Nat) := Fin w → UInt8

variable {w : Nat}

/-- `xor` byte by byte. -/
def Block.xor (a b : Block w) : Block w := fun i => a i ^^^ b i

theorem Block.xor_xor (a b : Block w) : (a.xor b).xor b = a := by
  funext i
  simp only [Block.xor, UInt8.xor_assoc, UInt8.xor_self, UInt8.xor_zero]

/-- The block at the head of a byte string. -/
def headBlock (w : Nat) (l : List UInt8) : Block w := fun i => l.getD i 0

/-- The first `n` blocks of a byte string. -/
def cutBlocks (w : Nat) : Nat → List UInt8 → List (Block w)
  | 0, _ => []
  | n + 1, l => headBlock w l :: cutBlocks w n (l.drop w)

theorem length_cutBlocks (n : Nat) : ∀ l : List UInt8, (cutBlocks w n l).length = n := by
  induction n with
  | zero => intro l; rfl
  | succ n ih =>
    intro l
    simp only [cutBlocks, List.length_cons, ih]

/-- The bytes of a list of blocks. -/
def joinBlocks (bs : List (Block w)) : List UInt8 := (bs.map List.ofFn).flatten

theorem headBlock_ofFn (b : Block w) (rest : List UInt8) : headBlock w (List.ofFn b ++ rest) = b := by
  funext i
  simp [headBlock, List.getElem?_append_left]

theorem ofFn_headBlock (l : List UInt8) (h : w ≤ l.length) :
    List.ofFn (headBlock w l) = l.take w := by
  refine List.ext_getElem (by simp [h]) fun i h1 h2 => ?_
  have hi : i < l.length := by simp at h1; omega
  simp [headBlock, hi]

theorem cutBlocks_joinBlocks (bs : List (Block w)) : cutBlocks w bs.length (joinBlocks bs) = bs := by
  induction bs with
  | nil => rfl
  | cons b bs ih =>
    have hj : joinBlocks (b :: bs) = List.ofFn b ++ joinBlocks bs := by simp [joinBlocks]
    have hdrop : (List.ofFn b ++ joinBlocks bs).drop w = joinBlocks bs :=
      List.drop_left' (by simp)
    rw [hj, List.length_cons, cutBlocks, headBlock_ofFn, hdrop, ih]

theorem joinBlocks_cutBlocks (n : Nat) :
    ∀ l : List UInt8, l.length = w * n → joinBlocks (cutBlocks w n l) = l := by
  induction n with
  | zero =>
    intro l hl
    have hnil : l = [] := List.eq_nil_of_length_eq_zero (by simpa using hl)
    rw [hnil]
    rfl
  | succ n ih =>
    intro l hl
    rw [Nat.mul_succ] at hl
    have hj : joinBlocks (cutBlocks w (n + 1) l) =
        List.ofFn (headBlock w l) ++ joinBlocks (cutBlocks w n (l.drop w)) := by
      simp [joinBlocks, cutBlocks]
    rw [hj, ofFn_headBlock l (by omega), ih (l.drop w) (by rw [List.length_drop]; omega),
      List.take_append_drop]

@[simp] theorem length_joinBlocks (bs : List (Block w)) : (joinBlocks bs).length = w * bs.length := by
  induction bs with
  | nil => rfl
  | cons b bs ih =>
    have hj : joinBlocks (b :: bs) = List.ofFn b ++ joinBlocks bs := by simp [joinBlocks]
    rw [hj, List.length_append, List.length_ofFn, ih, List.length_cons, Nat.mul_succ]
    omega

end Doodle.Lib
