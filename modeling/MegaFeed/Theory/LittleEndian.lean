import Mathlib

/-! # Little-endian words over byte lists

`leBytes n v` is the `n`-byte little-endian form of `v` and `ofLE` reads a byte list back. The
two are inverse on values below `256 ^ n` and on lists of length `n`. `or_shiftLeft_eq_ofLE`
and `byte_shiftLeft_mod` turn the usual shift-and-or reading of a word into `ofLE`. -/

namespace LittleEndian

/-- The `n` low bytes of `v`, least significant first. -/
def leBytes : Nat → Nat → List UInt8
  | 0, _ => []
  | n + 1, v => UInt8.ofNat v :: leBytes n (v / 256)

/-- The number a byte list denotes, least significant byte first. -/
def ofLE : List UInt8 → Nat
  | [] => 0
  | b :: bs => b.toNat + 256 * ofLE bs

theorem ofLE_leBytes : ofLE (leBytes n v) = v % 256 ^ n := by
  induction n generalizing v with
  | zero => simp [leBytes, ofLE, Nat.mod_one]
  | succ n ih =>
    have hb : (UInt8.ofNat v).toNat = v % 256 := by simp
    rw [leBytes, ofLE, ih, hb, Nat.pow_succ', Nat.mod_mul]

theorem ofLE_leBytes_of_lt (h : v < 256 ^ n) : ofLE (leBytes n v) = v := by
  rw [ofLE_leBytes, Nat.mod_eq_of_lt h]

theorem ofLE_lt (bs : List UInt8) : ofLE bs < 256 ^ bs.length := by
  induction bs with
  | nil => simp [ofLE]
  | cons b bs ih =>
    have hb := b.toNat_lt
    rw [ofLE, List.length_cons, Nat.pow_succ']
    omega

theorem leBytes_ofLE (bs : List UInt8) : leBytes bs.length (ofLE bs) = bs := by
  induction bs with
  | nil => rfl
  | cons b bs ih =>
    have hb := b.toNat_lt
    have hdiv : (b.toNat + 256 * ofLE bs) / 256 = ofLE bs := by omega
    have hmod : UInt8.ofNat (b.toNat + 256 * ofLE bs) = b := by
      apply UInt8.toNat_inj.mp
      simp only [UInt8.toNat_ofNat']
      omega
    rw [List.length_cons, leBytes, ofLE, hdiv, hmod, ih]

theorem ofLE_append : ofLE (as ++ bs) = ofLE as + 256 ^ as.length * ofLE bs := by
  induction as with
  | nil => simp [ofLE]
  | cons a as ih =>
    rw [List.cons_append, ofLE, ofLE, ih, List.length_cons, Nat.pow_succ', Nat.mul_add,
      Nat.mul_assoc, Nat.add_assoc]

/-- One step of a shift-and-or word reader: the new byte lies above the bytes read so far. -/
theorem or_shiftLeft_eq_ofLE {b : UInt8} (h : k = 8 * bs.length) :
    ofLE bs ||| b.toNat <<< k = ofLE (bs ++ [b]) := by
  have hpow : 2 ^ k = 256 ^ bs.length := by rw [h, Nat.pow_mul]
  have hlt : ofLE bs < 2 ^ k := hpow ▸ ofLE_lt bs
  rw [Nat.or_comm, ← Nat.shiftLeft_add_eq_or_of_lt hlt, Nat.shiftLeft_eq, ofLE_append, hpow]
  simp only [ofLE]
  rw [Nat.mul_comm, Nat.add_comm, Nat.mul_zero, Nat.add_zero]

/-- A byte shifted inside a `w`-bit word loses nothing. -/
theorem byte_shiftLeft_mod {b : UInt8} (h : k + 8 ≤ w) : b.toNat <<< k % 2 ^ w = b.toNat <<< k := by
  apply Nat.mod_eq_of_lt
  calc b.toNat <<< k = b.toNat * 2 ^ k := Nat.shiftLeft_eq ..
    _ < 2 ^ 8 * 2 ^ k := Nat.mul_lt_mul_of_pos_right b.toNat_lt (Nat.two_pow_pos k)
    _ = 2 ^ (k + 8) := by rw [← Nat.pow_add, Nat.add_comm]
    _ ≤ 2 ^ w := Nat.pow_le_pow_right (by decide) h

end LittleEndian
