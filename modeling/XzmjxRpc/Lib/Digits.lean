import Mathlib.Algebra.Group.Nat.Defs

/-!
# XzmjxRpc.Lib.Digits

The base-256 digits of a natural number, least significant first, as a list
of a fixed length: the bytes of a machine integer in little-endian order.
The big-endian bytes are their reverse.
-/

namespace Digits

/-- The lowest `n` base-256 digits of `v`, least significant first. -/
def ofNat : Nat → Nat → List (BitVec 8)
  | 0, _ => []
  | n + 1, v => BitVec.ofNat 8 v :: ofNat n (v / 256)

/-- The number with the given base-256 digits, least significant first. -/
def toNat : List (BitVec 8) → Nat
  | [] => 0
  | b :: bs => b.toNat + 256 * toNat bs

@[simp] theorem length_ofNat (n v : Nat) : (ofNat n v).length = n := by
  induction n generalizing v with
  | zero => rfl
  | succ n ih => rw [ofNat, List.length_cons, ih]

/-- The digits determine the number modulo `256 ^ n`. -/
theorem toNat_ofNat (n v : Nat) : toNat (ofNat n v) = v % 256 ^ n := by
  induction n generalizing v with
  | zero => rw [ofNat, toNat, Nat.pow_zero, Nat.mod_one]
  | succ n ih =>
      have hmod : v % 256 ^ (n + 1) = v % 256 + 256 * (v / 256 % 256 ^ n) := by
        rw [Nat.pow_succ, Nat.mul_comm, Nat.mod_mul]
      rw [ofNat, toNat, ih, BitVec.toNat_ofNat, hmod]

/-- The digits of a number below `256 ^ n` determine it. -/
theorem toNat_ofNat_of_lt {n v : Nat} (h : v < 256 ^ n) : toNat (ofNat n v) = v := by
  rw [toNat_ofNat, Nat.mod_eq_of_lt h]

theorem toNat_lt (bs : List (BitVec 8)) : toNat bs < 256 ^ bs.length := by
  induction bs with
  | nil => simp [toNat]
  | cons b bs ih =>
      have hb : b.toNat < 256 := b.isLt
      rw [toNat, List.length_cons, Nat.pow_succ]
      omega

/-- A list of digits is the digits of its number. -/
theorem ofNat_toNat (bs : List (BitVec 8)) : ofNat bs.length (toNat bs) = bs := by
  induction bs with
  | nil => rfl
  | cons b bs ih =>
      have hb : b.toNat < 256 := b.isLt
      have hdiv : (b.toNat + 256 * toNat bs) / 256 = toNat bs := by omega
      have hlow : BitVec.ofNat 8 (b.toNat + 256 * toNat bs) = b := by
        apply BitVec.eq_of_toNat_eq
        rw [BitVec.toNat_ofNat]
        omega
      rw [List.length_cons, toNat, ofNat, hlow, hdiv, ih]

/-! ## bits -/

/-- Bit `i` of the number is bit `i % 8` of digit `i / 8`. -/
theorem testBit_toNat (bs : List (BitVec 8)) (i : Nat) :
    (toNat bs).testBit i = (bs.getD (i / 8) 0).getLsbD (i % 8) := by
  induction bs generalizing i with
  | nil => simp [toNat]
  | cons b bs ih =>
      have hsum : b.toNat + 256 * toNat bs = 2 ^ 8 * toNat bs + b.toNat := by omega
      rw [toNat, hsum, Nat.testBit_two_pow_mul_add _ b.isLt]
      by_cases hi : i < 8
      · rw [if_pos hi, Nat.div_eq_of_lt hi, Nat.mod_eq_of_lt hi]
        rfl
      · have hdiv : i / 8 = (i - 8) / 8 + 1 := by omega
        have hmod : i % 8 = (i - 8) % 8 := by omega
        rw [if_neg hi, ih, hdiv, hmod]
        rfl

/-- The digits of a number have its bits. -/
theorem getLsbD_getD_ofNat {n k j : Nat} (hk : k < n) (hj : j < 8) (v : Nat) :
    ((ofNat n v).getD k 0).getLsbD j = v.testBit (8 * k + j) := by
  have hbit := testBit_toNat (ofNat n v) (8 * k + j)
  have hdiv : (8 * k + j) / 8 = k := by omega
  have hmod : (8 * k + j) % 8 = j := by omega
  have hpow : 256 ^ n = 2 ^ (8 * n) := (Nat.pow_mul 2 8 n).symm
  rw [hdiv, hmod, toNat_ofNat, hpow, Nat.testBit_mod_two_pow,
    decide_eq_true (by omega), Bool.true_and] at hbit
  exact hbit.symm

end Digits
