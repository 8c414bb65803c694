import Mathlib.Algebra.Group.Nat.Defs
import Mathlib.Algebra.Group.Int.Defs
import Mathlib.Logic.Function.Basic
import XzmjxRpc.Lib.Checked

/-!
# XzmjxRpc.Lib.Zigzag

The zigzag map between signed and unsigned words of one width: `v ≥ 0` goes
to `2 * v` and `v < 0` to `-2 * v - 1`, so that numbers of small absolute
value become small unsigned numbers.  Words are bit vectors and arithmetic
wraps around; `encodeSteps` is the map in a language whose signed arithmetic
does not.
-/

namespace Zigzag

variable {w : Nat}

/-- `v < 0 ? (unsigned)(-v) * 2 - 1 : v * 2`. -/
def encode (v : BitVec w) : BitVec w := if v.toInt < 0 then -v * 2 - 1 else v * 2

/-- `(v >> 1) ^ (-(v & 1))`. -/
def decode (v : BitVec w) : BitVec w := (v >>> 1) ^^^ -(v &&& 1)

theorem toNat_one (hw : w ≠ 0) : (1 : BitVec w).toNat = 1 :=
  Nat.mod_eq_of_lt (Nat.one_lt_two_pow hw)

theorem toNat_and_one (hw : w ≠ 0) (v : BitVec w) : (v &&& 1).toNat = v.toNat % 2 := by
  rw [BitVec.toNat_and, toNat_one hw, Nat.and_one_is_mod]

theorem toNat_mul_two (v : BitVec w) : (v * 2).toNat = v.toNat * 2 % 2 ^ w := by
  show v.toNat * (2 % 2 ^ w) % 2 ^ w = v.toNat * 2 % 2 ^ w
  rw [Nat.mul_mod_mod]

theorem toNat_ushiftRight_one (v : BitVec w) : (v >>> 1).toNat = v.toNat / 2 := by
  rw [BitVec.toNat_ushiftRight, Nat.shiftRight_eq_div_pow, Nat.pow_one]

/-- An even word decodes to its half. -/
theorem decode_even (hw : w ≠ 0) {v x : BitVec w} (h : v.toNat = 2 * x.toNat) :
    decode v = x := by
  have hlow : v &&& 1 = 0#w := by
    apply BitVec.eq_of_toNat_eq
    rw [toNat_and_one hw, h, BitVec.toNat_ofNat, Nat.zero_mod]
    omega
  have hhalf : v >>> 1 = x := by
    apply BitVec.eq_of_toNat_eq
    rw [toNat_ushiftRight_one, h]
    omega
  rw [decode, hlow, hhalf, BitVec.neg_zero, BitVec.xor_zero]

/-- An odd word decodes to the complement of its half. -/
theorem decode_odd (hw : w ≠ 0) {v x : BitVec w} (h : v.toNat = 2 * (~~~x).toNat + 1) :
    decode v = x := by
  have hlow : v &&& 1 = 1#w := by
    apply BitVec.eq_of_toNat_eq
    rw [toNat_and_one hw, h, BitVec.toNat_ofNat, Nat.mod_eq_of_lt (Nat.one_lt_two_pow hw)]
    omega
  have hhalf : v >>> 1 = ~~~x := by
    apply BitVec.eq_of_toNat_eq
    rw [toNat_ushiftRight_one, h]
    omega
  rw [decode, hlow, hhalf, BitVec.neg_one_eq_allOnes, BitVec.xor_allOnes, BitVec.not_not]

theorem toInt_neg_iff (v : BitVec w) : v.toInt < 0 ↔ 2 ^ w ≤ 2 * v.toNat := BitVec.toInt_neg_iff

/-- A word that is not negative is doubled. -/
theorem toNat_encode_of_nonneg {v : BitVec w} (h : ¬ v.toInt < 0) :
    (encode v).toNat = 2 * v.toNat := by
  have hv : 2 * v.toNat < 2 ^ w := by
    rw [toInt_neg_iff] at h
    omega
  rw [encode, if_neg h, toNat_mul_two, Nat.mod_eq_of_lt (by omega), Nat.mul_comm]

/-- A negative word becomes an odd one, the least number included, whose
negation wraps to itself. -/
theorem toNat_encode_of_neg {v : BitVec w} (h : v.toInt < 0) :
    (encode v).toNat = 2 * (~~~v).toNat + 1 := by
  have hw : w ≠ 0 := by
    rintro rfl
    rw [Subsingleton.elim v 0] at h
    exact absurd h (by decide)
  have hpow : 2 ^ w = 2 * 2 ^ (w - 1) := by
    rw [← Nat.pow_succ', Nat.succ_eq_add_one, Nat.sub_add_cancel (by omega)]
  have hlt := v.isLt
  have hone : 1 < 2 ^ w := Nat.one_lt_two_pow hw
  have hv := (toInt_neg_iff v).mp h
  -- `-v` is `2 ^ w - v`, at most half the range, so doubling it overflows only to zero
  have hneg : (-v).toNat = 2 ^ w - v.toNat := by
    rw [BitVec.toNat_neg, Nat.mod_eq_of_lt (by omega)]
  have hnot : (~~~v).toNat = 2 ^ w - 1 - v.toNat := BitVec.toNat_not
  rw [encode, if_pos h, hnot, BitVec.toNat_sub, toNat_mul_two, hneg, toNat_one hw]
  by_cases hmin : (2 ^ w - v.toNat) * 2 = 2 ^ w
  · rw [hmin, Nat.mod_self, Nat.add_zero, Nat.mod_eq_of_lt (by omega)]
    omega
  · have hsum : 2 ^ w - 1 + (2 ^ w - v.toNat) * 2 = 2 ^ w + ((2 ^ w - v.toNat) * 2 - 1) := by
      omega
    rw [Nat.mod_eq_of_lt (a := (2 ^ w - v.toNat) * 2) (by omega), hsum, Nat.add_mod_left,
      Nat.mod_eq_of_lt (by omega)]
    omega

/-- **Round trip**: decoding inverts encoding. -/
theorem decode_encode (v : BitVec w) : decode (encode v) = v := by
  by_cases hw : w = 0
  · subst hw
    exact Subsingleton.elim _ _
  · by_cases h : v.toInt < 0
    · exact decode_odd hw (toNat_encode_of_neg h)
    · exact decode_even hw (toNat_encode_of_nonneg h)

/-- **And back**: encoding inverts decoding. -/
theorem encode_decode (v : BitVec w) : encode (decode v) = v := by
  by_cases hw : w = 0
  · subst hw
    exact Subsingleton.elim _ _
  have hpow : 2 ^ w = 2 * 2 ^ (w - 1) := by
    rw [← Nat.pow_succ', Nat.succ_eq_add_one, Nat.sub_add_cancel (by omega)]
  have hlt := v.isLt
  have hhalf : (v >>> 1).toNat = v.toNat / 2 := toNat_ushiftRight_one v
  apply BitVec.eq_of_toNat_eq
  rcases Nat.mod_two_eq_zero_or_one v.toNat with heven | hodd
  · have hdec : decode v = v >>> 1 := decode_even hw (by rw [hhalf]; omega)
    rw [hdec, toNat_encode_of_nonneg (by rw [toInt_neg_iff, hhalf]; omega), hhalf]
    omega
  · have hnot : (~~~(v >>> 1)).toNat = 2 ^ w - 1 - v.toNat / 2 := by rw [BitVec.toNat_not, hhalf]
    have hdec : decode v = ~~~(v >>> 1) := by
      apply decode_odd hw
      rw [BitVec.not_not, hhalf]
      omega
    rw [hdec, toNat_encode_of_neg (by rw [toInt_neg_iff, hnot]; omega), BitVec.not_not, hhalf]
    omega

/-- **Bijection** between the signed and the unsigned words. -/
theorem bijective_encode : Function.Bijective (encode : BitVec w → BitVec w) :=
  Function.bijective_iff_has_inverse.mpr ⟨decode, decode_encode, encode_decode⟩

/-- Words of small absolute value, and no others, become small ones. -/
theorem toNat_encode_lt {v : BitVec w} {m : Nat} (hm : 0 < m) :
    (encode v).toNat < 2 ^ m ↔ -2 ^ (m - 1) ≤ v.toInt ∧ v.toInt < 2 ^ (m - 1) := by
  have hpow : (2 : Nat) ^ m = 2 * 2 ^ (m - 1) := by
    rw [← Nat.pow_succ', Nat.succ_eq_add_one, Nat.sub_add_cancel (by omega)]
  have hcast : (2 : Int) ^ (m - 1) = (2 ^ (m - 1) : Nat) := by rw [Int.natCast_pow]; rfl
  have hlt := v.isLt
  have hint := toInt_neg_iff v
  rw [hpow, hcast]
  by_cases h : v.toInt < 0
  · have hnot : (~~~v).toNat = 2 ^ w - 1 - v.toNat := BitVec.toNat_not
    have hv : v.toInt = v.toNat - (2 ^ w : Nat) := by
      rw [BitVec.toInt_eq_toNat_cond, if_neg (by omega)]
    rw [toNat_encode_of_neg h, hnot, hv]
    omega
  · have hv : v.toInt = v.toNat := by rw [BitVec.toInt_eq_toNat_cond, if_pos (by omega)]
    rw [toNat_encode_of_nonneg h, hv]
    omega

/-! ## the signed steps -/

theorem toInt_two (hw : 3 ≤ w) : (2 : BitVec w).toInt = 2 := by
  have hpow : 2 ^ 3 ≤ 2 ^ w := Nat.pow_le_pow_right (by decide) hw
  have hlt : 2 < 2 ^ w := by omega
  have htwo : (2 : BitVec w).toNat = 2 := Nat.mod_eq_of_lt hlt
  rw [BitVec.toInt_eq_toNat_cond, htwo, if_pos (by omega)]
  rfl

/-- `encode` step by step: the negation and, where `v ≥ 0`, the doubling are
those of the signed type. -/
def encodeSteps (v : BitVec w) : Checked (BitVec w) :=
  if v.toInt < 0 then do
    let u ← Checked.neg v
    pure (u * 2 - 1)
  else Checked.mul v 2

/-- **The steps** are defined on all but the least number and those from a
quarter of the range on. -/
theorem encodeSteps_eq_ok (hw : 3 ≤ w) {v u : BitVec w} :
    encodeSteps v = .ok u ↔
      (-2 ^ (w - 1) < v.toInt ∧ v.toInt < 2 ^ (w - 2)) ∧ u = encode v := by
  have htwo : (2 : BitVec w).toInt = 2 := toInt_two hw
  have hpow : (2 : Int) ^ (w - 1) = 2 * 2 ^ (w - 2) := by
    have hsucc : w - 1 = w - 2 + 1 := by omega
    rw [hsucc, Int.pow_succ, Int.mul_comm]
  have hpos : (0 : Int) < 2 ^ (w - 2) := Int.pow_pos (by decide)
  have hle := BitVec.le_toInt v
  unfold encodeSteps encode
  by_cases h : v.toInt < 0
  · rw [if_pos h, if_pos h]
    simp only [Checked.bind_eq_ok, Checked.neg_eq_ok, Checked.pure_eq_ok]
    constructor
    · rintro ⟨_, ⟨hne, rfl⟩, rfl⟩
      exact ⟨⟨by omega, by omega⟩, rfl⟩
    · rintro ⟨⟨hlt, -⟩, rfl⟩
      exact ⟨_, ⟨by omega, rfl⟩, rfl⟩
  · rw [if_neg h, if_neg h, Checked.mul_eq_ok, htwo]
    have hfits : (-2 ^ (w - 1) ≤ v.toInt * 2 ∧ v.toInt * 2 < 2 ^ (w - 1)) ↔
        -2 ^ (w - 1) < v.toInt ∧ v.toInt < 2 ^ (w - 2) := by omega
    rw [hfits]
end Zigzag
