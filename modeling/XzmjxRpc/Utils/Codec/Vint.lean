import Mathlib.Order.Bounds.Defs
import XzmjxRpc.Utils.Codec

/-!
# XzmjxRpc.Utils.Codec.Vint

The variable-width integers on every input.

A reader takes any bytes: a code cut short by the number of rounds, a code
with more groups than it needs, groups that do not fit the word.  What it
returns is the sum of the groups modulo `2 ^ w` (`readUint_codes`).  A writer
of signed integers is zigzag and then groups, and writes the fewest bytes that
hold the number (`writeInt_shortest`), as long as the zigzag map is taken in
defined steps (`encodeZigzag_defined_iff`).
-/

namespace XzmjxRpc

variable {w : Nat}

/-! ## reading -/

/-- A reader of words that takes the shortest code at the front of any stream. -/
structure ReadsCodes (n : Nat) (m : Decoder (BitVec w)) : Prop where
  /-- It returns the sum of the groups modulo `2 ^ w`, and takes the code. -/
  number : ∀ xs rest, Varint.IsCode n xs →
    m (xs ++ rest) = .ok (BitVec.ofNat w (Varint.number xs), rest)
  /-- It throws exactly when the stream ends first. -/
  throws : ∀ s, (∃ what, m s = .error (.outOfRange what)) ↔
    ¬ ∃ xs, xs <+: s ∧ Varint.IsCode n xs
  /-- It is the loop in which a shift by the width or more fails. -/
  shifts : ∀ undef, Varint.loop undef readFuint8 0 0 = m

/-- Enough rounds for the width, and none too many. -/
theorem readsCodes_read {n : Nat} (hle : w ≤ 7 * n) (hlt : 7 * n < w + 7) :
    ReadsCodes n (Varint.read readFuint8 n 0 (0 : BitVec w)) where
  number xs rest h := by
    have hreads := Varint.reads_code reads_readFuint8 h 0 0#w rest
    rwa [BitVec.shiftLeft_zero, BitVec.zero_or] at hreads
  throws s := by
    constructor
    · rintro ⟨what, hthrow⟩ ⟨xs, ⟨rest, rfl⟩, hcode⟩
      have hreads := Varint.reads_code reads_readFuint8 hcode 0 (0 : BitVec w) rest
      rw [hreads] at hthrow
      cases hthrow
    · intro hnone
      have hprefix : ∀ xs, xs <+: s → ¬ Varint.IsCode n xs := fun xs hxs hcode =>
        hnone ⟨xs, hxs, hcode⟩
      exact ⟨_, Varint.read_eq_error hprefix 0 0⟩
  shifts undef := Varint.loop_eq_read undef (by omega) (by omega) 0

/-- **Any stream**: `readUint32` and `readUint64` take the shortest front that
ends in a byte below `0x80` or has 5, or 10, bytes, and return what its groups
add up to, modulo `2 ^ 32`, or `2 ^ 64`; they throw exactly when the stream
ends before such a front does, and shift by less than the width. -/
theorem readUint_codes : ReadsCodes 5 readUint32 ∧ ReadsCodes 10 readUint64 :=
  ⟨readsCodes_read (by decide) (by decide), readsCodes_read (by decide) (by decide)⟩

/-- Five groups of ones, the last byte's top bit set: three bits are lost. -/
example : readUint32 [0xff, 0xff, 0xff, 0xff, 0xff, 7] = .ok (0xffffffff, [7]) := by decide

/-! ## writing -/

/-- A writer of signed words into an array of `n` bytes that uses as few as it
can. -/
structure WritesShortest (n : Nat) (write : BitVec w → Bytes) : Prop where
  /-- The array is large enough. -/
  room : ∀ v, Varint.encode n (Zigzag.encode v) = some (write v)
  length_pos : ∀ v, 1 ≤ (write v).length
  length_le : ∀ v, (write v).length ≤ n
  least : ∀ v : BitVec w,
    IsLeast { k : Nat | 1 ≤ k ∧ -2 ^ (7 * k - 1) ≤ v.toInt ∧ v.toInt < 2 ^ (7 * k - 1) }
      (write v).length
  /-- All the bytes but the last have the top bit set. -/
  marked : ∀ v, ∃ init last, write v = init ++ [last] ∧ (∀ b ∈ init, 0x80 ≤ b.toNat) ∧
    last.toNat < 0x80

theorem writesShortest {n : Nat} {write : BitVec w → Bytes} (hn : 0 < n) (hw : w ≤ 7 * n)
    (room : ∀ v, Varint.encode n (Zigzag.encode v) = some (write v)) :
    WritesShortest n write where
  room := room
  length_pos v := List.length_pos_iff.mpr (Varint.encode_ne_nil (room v))
  length_le v := by
    rw [Varint.length_le_iff (room v) hn]
    exact (Zigzag.encode v).isLt.trans_le (Nat.pow_le_pow_right (by decide) hw)
  least v := by
    have hfit (k : Nat) (hk : 1 ≤ k) : (write v).length ≤ k ↔
        -2 ^ (7 * k - 1) ≤ v.toInt ∧ v.toInt < 2 ^ (7 * k - 1) := by
      rw [Varint.length_le_iff (room v) hk, Zigzag.toNat_encode_lt (by omega)]
    have hpos : 1 ≤ (write v).length := List.length_pos_iff.mpr (Varint.encode_ne_nil (room v))
    exact ⟨⟨hpos, (hfit _ hpos).mp (Nat.le_refl _)⟩, fun k hk => (hfit k hk.1).mpr hk.2⟩
  marked v := Varint.exists_marked (room v)

/-- **Any signed integer**: `writeInt64` and `writeInt32` write the least
number of bytes that holds it, at most 10, or 5; and the zigzag map is a
bijection that `DecodeZigzag` inverts. -/
theorem writeInt_shortest :
    (WritesShortest 10 writeInt64 ∧ Function.Bijective encodeZigzag64 ∧
      Function.LeftInverse decodeZigzag64 encodeZigzag64 ∧
      Function.RightInverse decodeZigzag64 encodeZigzag64) ∧
    WritesShortest 5 writeInt32 ∧ Function.Bijective encodeZigzag32 ∧
      Function.LeftInverse decodeZigzag32 encodeZigzag32 ∧
      Function.RightInverse decodeZigzag32 encodeZigzag32 := by
  have h64 : WritesShortest 10 writeInt64 := writesShortest (by decide) (by decide) fun v =>
    (Option.some_get (isSome_encode_ten (encodeZigzag64 v))).symm
  have h32 : WritesShortest 5 writeInt32 := writesShortest (by decide) (by decide) fun v =>
    (Option.some_get (isSome_encode_five (encodeZigzag32 v))).symm
  exact ⟨⟨h64, Zigzag.bijective_encode, Zigzag.decode_encode, Zigzag.encode_decode⟩,
    h32, Zigzag.bijective_encode, Zigzag.decode_encode, Zigzag.encode_decode⟩

/-! ## the signed steps -/

/-- `EncodeZigzag32(v)`, the arithmetic of `int32_t` checked. -/
def encodeZigzag32Steps (v : BitVec 32) : Checked (BitVec 32) := Zigzag.encodeSteps v
/-- `EncodeZigzag64(v)`, the arithmetic of `int64_t` checked. -/
def encodeZigzag64Steps (v : BitVec 64) : Checked (BitVec 64) := Zigzag.encodeSteps v

/-- Where the steps are defined, they are the map. -/
theorem encodeZigzag32_of_steps {v u : BitVec 32} (h : encodeZigzag32Steps v = .ok u) :
    u = encodeZigzag32 v := ((Zigzag.encodeSteps_eq_ok (by decide)).mp h).2

theorem encodeZigzag64_of_steps {v u : BitVec 64} (h : encodeZigzag64Steps v = .ok u) :
    u = encodeZigzag64 v := ((Zigzag.encodeSteps_eq_ok (by decide)).mp h).2

/-- **Every signed integer**: the steps of `EncodeZigzag32` stay in range on
those above the least and below `2 ^ 30`, the steps of `EncodeZigzag64` on
those above the least and below `2 ^ 62`. -/
theorem encodeZigzag_defined_iff (v : BitVec 32) (v' : BitVec 64) :
    ((∃ u, encodeZigzag32Steps v = .ok u) ↔ -2 ^ 31 < v.toInt ∧ v.toInt < 2 ^ 30) ∧
      ((∃ u, encodeZigzag64Steps v' = .ok u) ↔ -2 ^ 63 < v'.toInt ∧ v'.toInt < 2 ^ 62) := by
  constructor
  · simp only [encodeZigzag32Steps, Zigzag.encodeSteps_eq_ok (show 3 ≤ 32 by decide),
      exists_and_left, exists_eq, and_true]
  · simp only [encodeZigzag64Steps, Zigzag.encodeSteps_eq_ok (show 3 ≤ 64 by decide),
      exists_and_left, exists_eq, and_true]

/-- Doubling `2 ^ 30` leaves the range, and so does negating the least integer. -/
theorem encodeZigzag_not_defined :
    ¬ (∃ u, encodeZigzag32Steps 0x40000000 = .ok u) ∧
      ¬ (∃ u, encodeZigzag32Steps 0x80000000 = .ok u) ∧
      ¬ (∃ u, encodeZigzag64Steps 0x4000000000000000 = .ok u) ∧
      ¬ (∃ u, encodeZigzag64Steps 0x8000000000000000 = .ok u) := by
  have hdouble : encodeZigzag32Steps 0x40000000 = .error .overflow ∧
      encodeZigzag64Steps 0x4000000000000000 = .error .overflow := by decide
  have hneg : encodeZigzag32Steps 0x80000000 = .error .overflow ∧
      encodeZigzag64Steps 0x8000000000000000 = .error .overflow := by decide
  exact ⟨Checked.not_ok hdouble.1, Checked.not_ok hneg.1, Checked.not_ok hdouble.2,
    Checked.not_ok hneg.2⟩

end XzmjxRpc
