import Mathlib.Data.List.Induction
import Mathlib.Data.Nat.Basic
import Mathlib.Tactic.Ring
import Mathlib.Tactic.Linarith

/-!
# Big-endian integers

Unsigned and two's complement integers of a fixed number of bytes, most significant byte first.
-/

namespace Lib.BigEndian

/-- The low `n` bytes of `v`. -/
def encode : Nat → Nat → List UInt8
  | 0, _ => []
  | n + 1, v => encode n (v / 256) ++ [UInt8.ofNat v]

def decode (bs : List UInt8) : Nat := bs.foldl (fun acc b => 256 * acc + b.toNat) 0

@[simp] theorem encode_length (n v : Nat) : (encode n v).length = n := by
  induction n generalizing v with
  | zero => rfl
  | succ n ih => simp [encode, ih]

theorem decode_append_one (bs : List UInt8) (b : UInt8) :
    decode (bs ++ [b]) = 256 * decode bs + b.toNat := by
  simp [decode, List.foldl_append]

theorem decode_encode (n v : Nat) : decode (encode n v) = v % 256 ^ n := by
  induction n generalizing v with
  | zero => simp [encode, decode, Nat.mod_one]
  | succ n ih =>
    rw [encode, decode_append_one, ih, pow_succ', Nat.mod_mul]
    simp [Nat.add_comm]

/-- The two's complement reading of an unsigned value below `m`. -/
def toSigned (m v : Nat) : Int := if 2 * v < m then v else (v : Int) - m

def encodeInt (n : Nat) (v : Int) : List UInt8 := encode n (v % (256 ^ n : Nat)).toNat

def decodeInt (bs : List UInt8) : Int := toSigned (256 ^ bs.length) (decode bs)

/-- `v` fits a signed field of `n` bytes. -/
def Fits (n : Nat) (v : Int) : Prop := -(256 ^ n : Nat) ≤ 2 * v ∧ 2 * v < (256 ^ n : Nat)

instance (n : Nat) (v : Int) : Decidable (Fits n v) := by unfold Fits; infer_instance

@[simp] theorem encodeInt_length (n : Nat) (v : Int) : (encodeInt n v).length = n := by
  simp [encodeInt]

theorem toSigned_emod (m : Nat) (v : Int) (hm : 0 < m) (hlo : -(m : Int) ≤ 2 * v) (hhi : 2 * v < m) :
    toSigned m (v % (m : Int)).toNat = v := by
  have hm' : (m : Int) ≠ 0 := by omega
  have hnn := Int.emod_nonneg v hm'
  unfold toSigned
  by_cases h0 : 0 ≤ v
  · have hv : v % (m : Int) = v := Int.emod_eq_of_lt h0 (by omega)
    rw [hv, if_pos (by omega)]
    omega
  · have hv : v % (m : Int) = v + m := by
      rw [← Int.add_emod_right]
      exact Int.emod_eq_of_lt (by omega) (by omega)
    rw [hv, if_neg (by omega)]
    omega

theorem decodeInt_encodeInt (n : Nat) (v : Int) (h : Fits n v) : decodeInt (encodeInt n v) = v := by
  obtain ⟨hlo, hhi⟩ := h
  have hm : 0 < 256 ^ n := by positivity
  have hlt : (v % ((256 ^ n : Nat) : Int)).toNat < 256 ^ n := by
    have := Int.emod_lt_of_pos v (b := ((256 ^ n : Nat) : Int)) (by exact_mod_cast hm)
    have := Int.emod_nonneg v (b := ((256 ^ n : Nat) : Int)) (by exact_mod_cast hm.ne')
    omega
  unfold decodeInt
  rw [encodeInt_length, encodeInt, decode_encode, Nat.mod_eq_of_lt hlt]
  exact toSigned_emod _ v hm hlo hhi

/-! ## Every field of `n` bytes is the encoding of what it reads as -/

theorem decode_lt (bs : List UInt8) : decode bs < 256 ^ bs.length := by
  induction bs using List.reverseRecOn with
  | nil => simp [decode]
  | append_singleton bs b ih =>
    have hb := b.toNat_lt
    rw [decode_append_one, List.length_append, List.length_singleton, pow_succ]
    omega

theorem encode_decode (bs : List UInt8) : encode bs.length (decode bs) = bs := by
  induction bs using List.reverseRecOn with
  | nil => rfl
  | append_singleton bs b ih =>
    have hb := b.toNat_lt
    have hdiv : (256 * decode bs + b.toNat) / 256 = decode bs := by omega
    have hlast : UInt8.ofNat (256 * decode bs + b.toNat) = b := by
      apply UInt8.toNat_inj.mp
      simp only [UInt8.toNat_ofNat']
      omega
    rw [List.length_append, List.length_singleton, encode, decode_append_one, hdiv, hlast, ih]

theorem toSigned_bounds (m v : Nat) (h : v < m) : -(m : Int) ≤ 2 * toSigned m v ∧ 2 * toSigned m v < m := by
  unfold toSigned
  split <;> omega

theorem toSigned_neg_iff (m v : Nat) (h : v < m) : toSigned m v < 0 ↔ m ≤ 2 * v := by
  unfold toSigned
  split <;> omega

theorem toSigned_toNat_emod (m v : Nat) (h : v < m) : (toSigned m v % (m : Int)).toNat = v := by
  unfold toSigned
  split
  · rw [Int.emod_eq_of_lt (by omega) (by omega)]
    omega
  · rw [← Int.add_emod_right, sub_add_cancel, Int.emod_eq_of_lt (by omega) (by omega)]
    omega

theorem fits_decodeInt (bs : List UInt8) : Fits bs.length (decodeInt bs) := toSigned_bounds _ _ (decode_lt bs)

theorem encodeInt_decodeInt (bs : List UInt8) : encodeInt bs.length (decodeInt bs) = bs := by
  rw [encodeInt, decodeInt, toSigned_toNat_emod _ _ (decode_lt bs), encode_decode]

end Lib.BigEndian
