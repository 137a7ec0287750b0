import Mathlib.Algebra.Group.Nat.Defs

/-!
# 32-bit MurmurHash2

The hash in wrapping 32-bit arithmetic, four bytes at a time, the lowest first. The lemmas of the first section
say that natural numbers which are masked after each operation compute the same as words.
-/

namespace Lib.Murmur

/-! ## Masked arithmetic -/

section Masks

variable {w : Nat} (x y : BitVec w)

theorem toNat_mask : x.toNat &&& (2 ^ w - 1) = x.toNat := by
  rw [Nat.and_two_pow_sub_one_eq_mod, Nat.mod_eq_of_lt x.isLt]

theorem toNat_mul_mask : (x.toNat * y.toNat) &&& (2 ^ w - 1) = (x * y).toNat := by
  rw [Nat.and_two_pow_sub_one_eq_mod, BitVec.toNat_mul]

theorem toNat_xor_mask : (x.toNat ^^^ y.toNat) &&& (2 ^ w - 1) = (x ^^^ y).toNat := by
  rw [← BitVec.toNat_xor, toNat_mask]

theorem toNat_mod_shiftRight (n : Nat) : (x.toNat % 2 ^ w) >>> n = (x >>> n).toNat := by
  rw [Nat.mod_eq_of_lt x.isLt, BitVec.toNat_ushiftRight]

end Masks

/-! ## The hash -/

def m : BitVec 32 := 0x5bd1e995

def word (a b c d : UInt8) : BitVec 32 := d.toBitVec ++ c.toBitVec ++ b.toBitVec ++ a.toBitVec

def mixWord (k : BitVec 32) : BitVec 32 := (k * m ^^^ (k * m) >>> 24) * m

def byte (b : UInt8) : BitVec 32 := b.toBitVec.setWidth 32

def body (h : BitVec 32) : List UInt8 → BitVec 32
  | a :: b :: c :: d :: rest => body (h * m ^^^ mixWord (word a b c d)) rest
  | [a, b, c] => (h ^^^ byte c <<< 16 ^^^ byte b <<< 8 ^^^ byte a) * m
  | [a, b] => (h ^^^ byte b <<< 8 ^^^ byte a) * m
  | [a] => (h ^^^ byte a) * m
  | [] => h

def finish (h : BitVec 32) : BitVec 32 :=
  let h := (h ^^^ h >>> 13) * m
  h ^^^ h >>> 15

def murmurHash2 (seed : BitVec 32) (key : List UInt8) : BitVec 32 :=
  finish (body (seed ^^^ BitVec.ofNat 32 key.length) key)

theorem toNat_byte (b : UInt8) : (byte b).toNat = b.toNat := by
  have hb : b.toNat < 2 ^ 8 := b.toNat_lt
  unfold byte
  rw [BitVec.toNat_setWidth, UInt8.toNat_toBitVec, Nat.mod_eq_of_lt (by omega)]

theorem toNat_byte_shift (b : UInt8) {n : Nat} (h : n ≤ 24) : (byte b <<< n).toNat = b.toNat <<< n := by
  have hb : b.toNat < 2 ^ 8 := b.toNat_lt
  rw [BitVec.toNat_shiftLeft, toNat_byte, Nat.mod_eq_of_lt]
  have hpow : 2 ^ n ≤ 2 ^ 24 := Nat.pow_le_pow_right (by omega) h
  rw [Nat.shiftLeft_eq]
  calc b.toNat * 2 ^ n ≤ b.toNat * 2 ^ 24 := Nat.mul_le_mul_left _ hpow
    _ < 2 ^ 8 * 2 ^ 24 := Nat.mul_lt_mul_of_pos_right hb (by omega)

theorem toNat_word (a b c d : UInt8) :
    (word a b c d).toNat = a.toNat + b.toNat <<< 8 + c.toNat <<< 16 + d.toNat <<< 24 := by
  have ha : a.toNat < 2 ^ 8 := a.toNat_lt
  have hb : b.toNat < 2 ^ 8 := b.toNat_lt
  have hc : c.toNat < 2 ^ 8 := c.toNat_lt
  unfold word
  rw [BitVec.toNat_append, BitVec.toNat_append, BitVec.toNat_append]
  simp only [UInt8.toNat_toBitVec]
  rw [← Nat.shiftLeft_add_eq_or_of_lt ha, ← Nat.shiftLeft_add_eq_or_of_lt hb, ← Nat.shiftLeft_add_eq_or_of_lt hc]
  simp only [Nat.shiftLeft_eq]
  omega

end Lib.Murmur
