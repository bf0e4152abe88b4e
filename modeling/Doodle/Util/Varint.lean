/-
  `binary.PutVarint`, which writes the id of a token into a buffer of fixed size, against
  `binary.Varint`.

  A number takes a byte for each seven bits. `PutUvarint` writes on until the number is used up,
  and panics when the buffer is full before.

  * `putUvarint_of_lt`, `putUvarint_of_le`: a buffer of `n` bytes holds the numbers below `128 ^ n`,
    and no others.
  * `uvarintLoop_putUvarint`: what was written is read back, whatever the buffer held behind it.
-/
import Doodle.Util.Aes
import Mathlib.Tactic.Ring

namespace Doodle.Util

open Doodle.Go

/-- `binary.PutUvarint` from some index of the buffer on, without the number of bytes it returns. -/
def putUvarint : List UInt8 → Nat → Res String (List UInt8)
  | [], _ => .panic "index out of range"
  | _ :: buf, x =>
    if x < 0x80 then .ok (UInt8.ofNat x :: buf)
    else do
      let rest ← putUvarint buf (x >>> 7)
      pure ((UInt8.ofNat x ||| 0x80) :: rest)

/-- `binary.PutVarint` of an int64: an even number is a positive one, doubled. -/
def putVarint (buf : List UInt8) (x : Int) : Res String (List UInt8) :=
  let ux := (2 * x % 2 ^ 64).toNat
  putUvarint buf (if x < 0 then 2 ^ 64 - 1 - ux else ux)

/-! ## Room -/

theorem shiftRight_seven (x : Nat) : x >>> 7 = x / 128 := Nat.shiftRight_eq_div_pow x 7

theorem putUvarint_of_lt (buf : List UInt8) : ∀ x, buf ≠ [] → x < 128 ^ buf.length →
    ∃ out, putUvarint buf x = .ok out := by
  induction buf with
  | nil => intro x hne _; exact absurd rfl hne
  | cons b buf ih =>
    intro x _ hx
    by_cases hsmall : x < 0x80
    · exact ⟨_, by rw [putUvarint, if_pos hsmall]⟩
    · rw [List.length_cons, Nat.pow_succ] at hx
      have hdiv : x / 128 < 128 ^ buf.length := by
        rw [Nat.div_lt_iff_lt_mul (by decide)]
        exact hx
      have hne : buf ≠ [] := by
        intro hnil
        rw [hnil, List.length_nil, Nat.pow_zero] at hdiv
        omega
      obtain ⟨out, hout⟩ := ih (x / 128) hne hdiv
      rw [putUvarint, if_neg hsmall, shiftRight_seven, hout]
      exact ⟨_, rfl⟩

theorem putUvarint_of_le (buf : List UInt8) : ∀ x, 128 ^ buf.length ≤ x →
    putUvarint buf x = .panic "index out of range" := by
  induction buf with
  | nil => intro x _; rfl
  | cons b buf ih =>
    intro x hx
    have hpos : 0 < 128 ^ buf.length := Nat.pow_pos (by decide)
    rw [List.length_cons, Nat.pow_succ] at hx
    have hdiv : 128 ^ buf.length ≤ x / 128 := by
      rw [Nat.le_div_iff_mul_le (by decide)]
      exact hx
    have hlarge : ¬ x < 0x80 := by omega
    rw [putUvarint, if_neg hlarge, shiftRight_seven, ih _ hdiv]
    rfl

/-! ## Reading back -/

theorem toNat_or_high (x : Nat) : (UInt8.ofNat x ||| 0x80).toNat = x % 128 + 128 := by
  have hlow : x % 256 % 128 = x % 128 := Nat.mod_mod_of_dvd x (by decide)
  have hbytes : ∀ b < 256, b ||| 128 = b % 128 + 128 := by decide +kernel
  rw [UInt8.toNat_or, UInt8.toNat_ofNat', ← hlow]
  exact hbytes _ (Nat.mod_lt _ (by decide))

/-- Seven more bits on top of `s` bits. -/
theorem or_shiftLeft {acc s : Nat} (hacc : acc < 2 ^ s) (b : Nat) :
    acc ||| b <<< s = acc + b * 2 ^ s := by
  rw [Nat.shiftLeft_eq, Nat.or_comm, Nat.mul_comm, ← Nat.two_pow_add_eq_or_of_lt hacc, Nat.add_comm]

theorem two_pow_add_seven (s : Nat) : 2 ^ (s + 7) = 128 * 2 ^ s := by
  rw [Nat.pow_add, Nat.mul_comm]

/-- Where a number goes on: its low seven bits, and the rest above them. -/
theorem add_low_high (acc x s : Nat) :
    acc + x % 128 * 2 ^ s + x / 128 * 2 ^ (s + 7) = acc + x * 2 ^ s := by
  rw [two_pow_add_seven]
  conv_rhs => rw [← Nat.div_add_mod x 128]
  ring

theorem add_low_lt {acc s : Nat} (hacc : acc < 2 ^ s) (x : Nat) :
    acc + x % 128 * 2 ^ s < 2 ^ (s + 7) := by
  have hle : x % 128 * 2 ^ s ≤ 127 * 2 ^ s := Nat.mul_le_mul_right _ (by omega)
  rw [two_pow_add_seven]
  omega

/-- What is written of a number that does not fit into seven bits. -/
theorem putUvarint_of_large {b : UInt8} {buf out : List UInt8} {x : Nat} (hlarge : ¬ x < 0x80)
    (h : putUvarint (b :: buf) x = .ok out) :
    ∃ rest, putUvarint buf (x / 128) = .ok rest ∧ out = (UInt8.ofNat x ||| 0x80) :: rest := by
  rw [putUvarint, if_neg hlarge, shiftRight_seven] at h
  cases hrest : putUvarint buf (x / 128) with
  | err e => rw [hrest] at h; cases h
  | panic p => rw [hrest] at h; cases h
  | ok rest =>
    rw [hrest] at h
    exact ⟨rest, rfl, (Res.ok.inj h).symm⟩

/-- The loop at a last byte. -/
theorem uvarintLoop_last {x i acc s : Nat} (buf : List UInt8) (hsmall : x < 0x80) (hi : i < 9)
    (hacc : acc < 2 ^ s) (hfit : acc + x * 2 ^ s < 2 ^ 64) :
    uvarintLoop (UInt8.ofNat x :: buf) i acc s = (acc + x * 2 ^ s, (i + 1 : Int)) := by
  have hbyte : (UInt8.ofNat x).toNat = x := by
    rw [UInt8.toNat_ofNat']
    omega
  have hshort : ¬ (i > 9 ∨ i = 9 ∧ x > 1) := by omega
  rw [uvarintLoop, hbyte, if_pos hsmall, if_neg hshort, or_shiftLeft hacc, Nat.mod_eq_of_lt hfit]

/-- The loop at a byte that another one follows. -/
theorem uvarintLoop_more {x i acc s : Nat} (buf : List UInt8) (hacc : acc < 2 ^ s)
    (hfit : acc + x % 128 * 2 ^ s < 2 ^ 64) :
    uvarintLoop ((UInt8.ofNat x ||| 0x80) :: buf) i acc s =
      uvarintLoop buf (i + 1) (acc + x % 128 * 2 ^ s) (s + 7) := by
  have hbyte := toNat_or_high x
  have hmore : ¬ (UInt8.ofNat x ||| 0x80).toNat < 0x80 := by omega
  have hlow : (UInt8.ofNat x ||| 0x80).toNat % 128 = x % 128 := by omega
  rw [uvarintLoop, if_neg hmore, hlow, or_shiftLeft hacc, Nat.mod_eq_of_lt hfit]

/-- The loop of `Uvarint` at index `i`, with `acc` read so far: it reads the number written here on
    top of `acc`, and at least one byte. -/
theorem uvarintLoop_putUvarint (buf : List UInt8) : ∀ (x i acc s : Nat) (out : List UInt8),
    putUvarint buf x = .ok out → acc < 2 ^ s → acc + x * 2 ^ s < 2 ^ 64 → i + buf.length ≤ 9 →
    ∃ n : Nat, uvarintLoop out i acc s = (acc + x * 2 ^ s, (n : Int)) ∧ i < n := by
  induction buf with
  | nil => intro x i acc s out h; cases h
  | cons b buf ih =>
    intro x i acc s out h hacc hfit hroom
    rw [List.length_cons] at hroom
    by_cases hsmall : x < 0x80
    · rw [putUvarint, if_pos hsmall] at h
      obtain rfl := Res.ok.inj h
      exact ⟨i + 1, uvarintLoop_last buf hsmall (by omega) hacc hfit, by omega⟩
    · obtain ⟨rest, hrest, rfl⟩ := putUvarint_of_large hsmall h
      have hsum := add_low_high acc x s
      obtain ⟨n, hn, hi⟩ := ih (x / 128) (i + 1) (acc + x % 128 * 2 ^ s) (s + 7) rest hrest
        (add_low_lt hacc x) (by omega) (by omega)
      refine ⟨n, ?_, by omega⟩
      rw [uvarintLoop_more rest hacc (by omega), hn, hsum]

/-- A positive number that fits into the buffer is read back from it. -/
theorem varint_putVarint (buf : List UInt8) (hne : buf ≠ []) (hlen : buf.length ≤ 9) {x : Int}
    (hpos : 0 ≤ x) (hlt : x < 2 ^ 63) (hfit : 2 * x < 128 ^ buf.length) :
    ∃ out n, putVarint buf x = .ok out ∧ varint out = (x, n) ∧ 1 ≤ n := by
  obtain ⟨m, rfl⟩ := Int.eq_ofNat_of_zero_le hpos
  have hux : (2 * (m : Int) % 2 ^ 64).toNat = 2 * m := by omega
  have hroom : 2 * m < 128 ^ buf.length := by exact_mod_cast hfit
  obtain ⟨out, hout⟩ := putUvarint_of_lt buf (2 * m) hne hroom
  have hput : putVarint buf m = .ok out := by
    rw [putVarint, hux, if_neg (by omega), hout]
  obtain ⟨n, hn, hi⟩ := uvarintLoop_putUvarint buf (2 * m) 0 0 0 out hout (by decide)
    (by omega) (by omega)
  refine ⟨out, n, hput, ?_, by omega⟩
  rw [Nat.zero_add, Nat.pow_zero, Nat.mul_one] at hn
  have heven : 2 * m % 2 = 0 := by omega
  have hhalf : 2 * m / 2 = m := by omega
  simp only [varint, hn, heven, if_true, hhalf]

/-- A number that does not fit is a panic. -/
theorem putVarint_of_le {buf : List UInt8} {x : Int} (hpos : 0 ≤ x) (hlt : x < 2 ^ 63)
    (hfull : 128 ^ buf.length ≤ 2 * x) : putVarint buf x = .panic "index out of range" := by
  obtain ⟨m, rfl⟩ := Int.eq_ofNat_of_zero_le hpos
  have hux : (2 * (m : Int) % 2 ^ 64).toNat = 2 * m := by omega
  rw [putVarint, hux, if_neg (by omega)]
  exact putUvarint_of_le buf _ (by exact_mod_cast hfull)

end Doodle.Util
