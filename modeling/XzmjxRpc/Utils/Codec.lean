import XzmjxRpc.Lib.Digits
import XzmjxRpc.Lib.Varint
import XzmjxRpc.Lib.Zigzag
import XzmjxRpc.Utils.FlatBuffer

/-!
# XzmjxRpc.Utils.Codec

The number and string codecs of `ByteArray` (`utils/byte_array.cpp`) and the
byte swapping of `utils/endian_cast.h`.

An encoder is modelled by the bytes it hands to `write` and a decoder by a
reader that takes its bytes with `read` (`FlatBuffer.write_write` and
`FlatBuffer.run` tie both to the buffer).  An integer is a bit vector of its
width, signed or not; a `float` or `double` is its bit pattern.

The machine's own byte order is a parameter.  `writeFixed_eq` and
`reads_readFixed` show that it does not matter.
-/

namespace XzmjxRpc

abbrev Byte := BitVec 8
abbrev Bytes := List Byte

/-- A function that reads from a buffer of bytes. -/
abbrev Decoder (α : Type) := Reader Byte Fault α

/-- `std::endian`. -/
inductive Endian where
  | big
  | little
  deriving DecidableEq, Repr

/-- The machine the program runs on. -/
class Machine where
  /-- `std::endian::native`. -/
  native : Endian
  /-- `std::string::max_size()`. -/
  maxSize : Nat
  /-- There is memory for a string of so many characters. -/
  hasMemory : Nat → Bool

/-- A little-endian machine with memory for strings of less than `2 ^ 36`
characters. -/
abbrev x86_64 : Machine := ⟨.little, 2 ^ 63 - 1, fun n => n < 2 ^ 36⟩

/-! ## byte order -/

namespace Endian

variable {n : Nat}

/-- The bytes of an `n`-byte integer as they lie in memory in this order. -/
def bytes : Endian → BitVec (8 * n) → Bytes
  | little, v => Digits.ofNat n v.toNat
  | big, v => (Digits.ofNat n v.toNat).reverse

/-- The `n`-byte integer that lies in memory as these bytes. -/
def value (n : Nat) : Endian → Bytes → BitVec (8 * n)
  | little, bs => BitVec.ofNat _ (Digits.toNat bs)
  | big, bs => BitVec.ofNat _ (Digits.toNat bs.reverse)

@[simp] theorem length_bytes (e : Endian) (v : BitVec (8 * n)) : (e.bytes v).length = n := by
  cases e <;> simp [bytes]

theorem two_pow_mul_eight (n : Nat) : 2 ^ (8 * n) = 256 ^ n := Nat.pow_mul 2 8 n

theorem toNat_ofNat_of_length {bs : Bytes} (h : bs.length = n) :
    (BitVec.ofNat (8 * n) (Digits.toNat bs)).toNat = Digits.toNat bs := by
  have hlt := Digits.toNat_lt bs
  rw [h, ← two_pow_mul_eight] at hlt
  rw [BitVec.toNat_ofNat, Nat.mod_eq_of_lt hlt]

theorem ofNat_toNat_digits (v : BitVec (8 * n)) :
    BitVec.ofNat (8 * n) (Digits.toNat (Digits.ofNat n v.toNat)) = v := by
  have hlt := v.isLt
  rw [two_pow_mul_eight] at hlt
  rw [Digits.toNat_ofNat_of_lt hlt, BitVec.ofNat_toNat, BitVec.setWidth_eq]

@[simp] theorem value_bytes (e : Endian) (v : BitVec (8 * n)) : e.value n (e.bytes v) = v := by
  cases e with
  | big => rw [bytes, value, List.reverse_reverse, ofNat_toNat_digits]
  | little => rw [bytes, value, ofNat_toNat_digits]

theorem bytes_value (e : Endian) {bs : Bytes} (h : bs.length = n) :
    e.bytes (e.value n bs) = bs := by
  subst h
  cases e with
  | big =>
      have hlen : bs.reverse.length = bs.length := List.length_reverse
      rw [value, bytes, toNat_ofNat_of_length hlen]
      conv => lhs; rw [← hlen, Digits.ofNat_toNat]
      exact List.reverse_reverse bs
  | little => rw [value, bytes, toNat_ofNat_of_length rfl, Digits.ofNat_toNat]

/-- The other order is the reverse. -/
theorem bytes_little (v : BitVec (8 * n)) : little.bytes v = (big.bytes v).reverse := by
  rw [bytes, bytes, List.reverse_reverse]

end Endian

/-- `ByteSwap(v)`: the integer whose bytes are those of `v` in reverse. -/
def byteSwap {n : Nat} (v : BitVec (8 * n)) : BitVec (8 * n) :=
  Endian.little.value n (Endian.little.bytes v).reverse

theorem bytes_byteSwap {n : Nat} (e : Endian) (v : BitVec (8 * n)) :
    e.bytes (byteSwap v) = (e.bytes v).reverse := by
  have hlittle : Endian.little.bytes (byteSwap v) = (Endian.little.bytes v).reverse :=
    Endian.bytes_value .little (by rw [List.length_reverse, Endian.length_bytes])
  cases e with
  | little => exact hlittle
  | big =>
      rw [← List.reverse_reverse (Endian.big.bytes (byteSwap v)), ← Endian.bytes_little, hlittle,
        Endian.bytes_little, List.reverse_reverse]

/-- Swapping moves bytes and keeps the bits in each. -/
theorem getLsbD_byteSwap {n i : Nat} (v : BitVec (8 * n)) (hi : i < 8 * n) :
    (byteSwap v).getLsbD i = v.getLsbD (8 * (n - 1 - i / 8) + i % 8) := by
  have hk : i / 8 < n := by omega
  have hrev : (Digits.ofNat n v.toNat).reverse.getD (i / 8) 0 =
      (Digits.ofNat n v.toNat).getD (n - 1 - i / 8) 0 := by
    rw [List.getD_eq_getElem?_getD, List.getD_eq_getElem?_getD,
      List.getElem?_reverse (by rw [Digits.length_ofNat]; exact hk), Digits.length_ofNat]
  rw [byteSwap, Endian.value, Endian.bytes, BitVec.getLsbD_ofNat, decide_eq_true hi, Bool.true_and,
    Digits.testBit_toNat, hrev, Digits.getLsbD_getD_ofNat (by omega) (by omega),
    BitVec.testBit_toNat]

theorem byteSwap_and {n : Nat} (x y : BitVec (8 * n)) :
    byteSwap (x &&& y) = byteSwap x &&& byteSwap y := by
  apply BitVec.eq_of_getLsbD_eq
  intro i hi
  rw [BitVec.getLsbD_and, getLsbD_byteSwap _ hi, getLsbD_byteSwap _ hi, getLsbD_byteSwap _ hi,
    BitVec.getLsbD_and]

theorem byteSwap_or {n : Nat} (x y : BitVec (8 * n)) :
    byteSwap (x ||| y) = byteSwap x ||| byteSwap y := by
  apply BitVec.eq_of_getLsbD_eq
  intro i hi
  rw [BitVec.getLsbD_or, getLsbD_byteSwap _ hi, getLsbD_byteSwap _ hi, getLsbD_byteSwap _ hi,
    BitVec.getLsbD_or]

theorem byteSwap_not {n : Nat} (x : BitVec (8 * n)) : byteSwap (~~~x) = ~~~byteSwap x := by
  apply BitVec.eq_of_getLsbD_eq
  intro i hi
  have hj : 8 * (n - 1 - i / 8) + i % 8 < 8 * n := by omega
  rw [BitVec.getLsbD_not, getLsbD_byteSwap _ hi, getLsbD_byteSwap _ hi, BitVec.getLsbD_not,
    decide_eq_true hi, decide_eq_true hj]

section
variable [Machine]

/-- `EndianCastByType(v, e)`. -/
def endianCastByType {n : Nat} (v : BitVec (8 * n)) (e : Endian) : BitVec (8 * n) :=
  if Machine.native = e then v else byteSwap v

/-- In memory, the cast integer lies in the order it was cast to. -/
theorem bytes_endianCastByType {n : Nat} (v : BitVec (8 * n)) (e : Endian) :
    Machine.native.bytes (endianCastByType v e) = e.bytes v := by
  unfold endianCastByType
  by_cases h : Machine.native = e
  · rw [if_pos h, h]
  · rw [if_neg h, bytes_byteSwap]
    cases hm : (Machine.native : Endian) <;> cases e
    · exact absurd hm h
    · exact (Endian.bytes_little v).symm
    · rw [Endian.bytes_little, List.reverse_reverse]
    · exact absurd hm h

/-- Bits can be combined before a cast or after it. -/
theorem endianCastByType_and {n : Nat} (x y : BitVec (8 * n)) (e : Endian) :
    endianCastByType (x &&& y) e = endianCastByType x e &&& endianCastByType y e := by
  unfold endianCastByType
  split
  · rfl
  · exact byteSwap_and x y

theorem endianCastByType_or {n : Nat} (x y : BitVec (8 * n)) (e : Endian) :
    endianCastByType (x ||| y) e = endianCastByType x e ||| endianCastByType y e := by
  unfold endianCastByType
  split
  · rfl
  · exact byteSwap_or x y

theorem endianCastByType_not {n : Nat} (x : BitVec (8 * n)) (e : Endian) :
    endianCastByType (~~~x) e = ~~~endianCastByType x e := by
  unfold endianCastByType
  split
  · rfl
  · exact byteSwap_not x

/-! ## fixed width -/

/-- `T v = EndianCastByType(value, m_endian); write(&v, sizeof(v))`. -/
def writeFixed {n : Nat} (e : Endian) (v : BitVec (8 * n)) : Bytes :=
  Machine.native.bytes (endianCastByType v e)

/-- `T ans; read(&ans, sizeof(ans)); return EndianCastByType(ans, m_endian)`. -/
def readFixed (n : Nat) (e : Endian) : Decoder (BitVec (8 * n)) := do
  let ans ← Reader.take FlatBuffer.outOfData n
  pure (endianCastByType (Machine.native.value n ans) e)

/-- The bytes written are those of the configured order, on every machine. -/
theorem writeFixed_eq {n : Nat} (e : Endian) (v : BitVec (8 * n)) : writeFixed e v = e.bytes v :=
  bytes_endianCastByType v e

/-- Casting twice gives the integer back. -/
theorem endianCastByType_endianCastByType {n : Nat} (v : BitVec (8 * n)) (e : Endian) :
    endianCastByType (endianCastByType v e) e = v := by
  unfold endianCastByType
  split
  · rfl
  · rw [← Endian.value_bytes .little (byteSwap (byteSwap v)), bytes_byteSwap, bytes_byteSwap,
      List.reverse_reverse, Endian.value_bytes]

theorem endianCastByType_value {n : Nat} (e : Endian) {bs : Bytes} (h : bs.length = n) :
    endianCastByType (Machine.native.value n bs) e = e.value n bs := by
  have hcast := bytes_endianCastByType (endianCastByType (Machine.native.value n bs) e) e
  rw [endianCastByType_endianCastByType, Endian.bytes_value _ h] at hcast
  have hval := congrArg (e.value n) hcast
  rw [Endian.value_bytes] at hval
  exact hval.symm

/-- **Fixed width round trip.** -/
theorem reads_readFixed {n : Nat} (e : Endian) (v : BitVec (8 * n)) :
    Reader.Reads (readFixed n e) (writeFixed e v) v := by
  rw [writeFixed_eq]
  apply (Reader.Reads.take _ (Endian.length_bytes e v)).bind_nil
  rw [endianCastByType_value e (Endian.length_bytes e v), Endian.value_bytes]
  exact Reader.Reads.pure v

theorem takes_readFixed (n : Nat) (e : Endian) : Reader.Takes (readFixed n e) fun _ => n :=
  (Reader.Takes.take_count _ n).bind fun _ => Reader.Takes.pure _

/-- `writeFint8(value)` writes the byte as it is. -/
def writeFint8 (v : BitVec 8) : Bytes := [v]
/-- `writeFuint8(value)`. -/
def writeFuint8 (v : BitVec 8) : Bytes := [v]
/-- `writeFint16(value)`. -/
def writeFint16 (e : Endian) (v : BitVec 16) : Bytes := writeFixed (n := 2) e v
/-- `writeFuint16(value)`. -/
def writeFuint16 (e : Endian) (v : BitVec 16) : Bytes := writeFixed (n := 2) e v
/-- `writeFint32(value)`. -/
def writeFint32 (e : Endian) (v : BitVec 32) : Bytes := writeFixed (n := 4) e v
/-- `writeFuint32(value)`. -/
def writeFuint32 (e : Endian) (v : BitVec 32) : Bytes := writeFixed (n := 4) e v
/-- `writeFint64(value)`. -/
def writeFint64 (e : Endian) (v : BitVec 64) : Bytes := writeFixed (n := 8) e v
/-- `writeFuint64(value)`. -/
def writeFuint64 (e : Endian) (v : BitVec 64) : Bytes := writeFixed (n := 8) e v

/-- `readFint8()`. -/
def readFint8 : Decoder (BitVec 8) := Reader.next FlatBuffer.outOfData
/-- `readFuint8()`. -/
def readFuint8 : Decoder (BitVec 8) := Reader.next FlatBuffer.outOfData
/-- `readFint16()`. -/
def readFint16 (e : Endian) : Decoder (BitVec 16) := readFixed 2 e
/-- `readFuint16()`. -/
def readFuint16 (e : Endian) : Decoder (BitVec 16) := readFixed 2 e
/-- `readFint32()`. -/
def readFint32 (e : Endian) : Decoder (BitVec 32) := readFixed 4 e
/-- `readFuint32()`. -/
def readFuint32 (e : Endian) : Decoder (BitVec 32) := readFixed 4 e
/-- `readFint64()`. -/
def readFint64 (e : Endian) : Decoder (BitVec 64) := readFixed 8 e
/-- `readFuint64()`. -/
def readFuint64 (e : Endian) : Decoder (BitVec 64) := readFixed 8 e

/-- `writeFloat(value)`: the four bytes of the bit pattern. -/
def writeFloat (e : Endian) (v : BitVec 32) : Bytes := writeFuint32 e v
/-- `writeDouble(value)`. -/
def writeDouble (e : Endian) (v : BitVec 64) : Bytes := writeFuint64 e v
/-- `readFloat()`. -/
def readFloat (e : Endian) : Decoder (BitVec 32) := readFuint32 e
/-- `readDouble()`. -/
def readDouble (e : Endian) : Decoder (BitVec 64) := readFuint64 e

end

theorem reads_readFint8 (v : BitVec 8) : Reader.Reads readFint8 (writeFint8 v) v :=
  Reader.Reads.next _ v

theorem reads_readFuint8 (v : BitVec 8) : Reader.Reads readFuint8 (writeFuint8 v) v :=
  Reader.Reads.next _ v

/-! ## variable width -/

/-- `EncodeZigzag32(v)`. -/
def encodeZigzag32 (v : BitVec 32) : BitVec 32 := Zigzag.encode v
/-- `EncodeZigzag64(v)`. -/
def encodeZigzag64 (v : BitVec 64) : BitVec 64 := Zigzag.encode v
/-- `DecodeZigzag32(v)`. -/
def decodeZigzag32 (v : BitVec 32) : BitVec 32 := Zigzag.decode v
/-- `DecodeZigzag64(v)`. -/
def decodeZigzag64 (v : BitVec 64) : BitVec 64 := Zigzag.decode v

/-- `uint8_t tmp[5]` is large enough for every 32-bit value. -/
theorem isSome_encode_five (v : BitVec 32) : (Varint.encode 5 v).isSome :=
  Varint.isSome_encode (Nat.lt_trans v.isLt (by decide))

/-- `uint8_t tmp[10]` is large enough for every 64-bit value. -/
theorem isSome_encode_ten (v : BitVec 64) : (Varint.encode 10 v).isSome :=
  Varint.isSome_encode (Nat.lt_trans v.isLt (by decide))

/-- `writeUint32(value)`. -/
def writeUint32 (v : BitVec 32) : Bytes := (Varint.encode 5 v).get (isSome_encode_five v)

/-- `writeUint64(value)`. -/
def writeUint64 (v : BitVec 64) : Bytes := (Varint.encode 10 v).get (isSome_encode_ten v)

/-- `readUint32()`: `for (int i = 0; i < 32; i += 7)` is five rounds. -/
def readUint32 : Decoder (BitVec 32) := Varint.read readFuint8 5 0 0

/-- `readUint64()`: `for (int i = 0; i < 64; i += 7)` is ten rounds. -/
def readUint64 : Decoder (BitVec 64) := Varint.read readFuint8 10 0 0

/-- `writeInt32(value)`. -/
def writeInt32 (v : BitVec 32) : Bytes := writeUint32 (encodeZigzag32 v)
/-- `writeInt64(value)`. -/
def writeInt64 (v : BitVec 64) : Bytes := writeUint64 (encodeZigzag64 v)
/-- `readInt32()`. -/
def readInt32 : Decoder (BitVec 32) := decodeZigzag32 <$> readUint32
/-- `readInt64()`. -/
def readInt64 : Decoder (BitVec 64) := decodeZigzag64 <$> readUint64

theorem reads_readUint32 (v : BitVec 32) : Reader.Reads readUint32 (writeUint32 v) v := by
  have h := Varint.reads_encode reads_readFuint8 (Option.some_get (isSome_encode_five v)).symm 0
    0#32
  rwa [BitVec.shiftLeft_zero, BitVec.zero_or] at h

theorem reads_readUint64 (v : BitVec 64) : Reader.Reads readUint64 (writeUint64 v) v := by
  have h := Varint.reads_encode reads_readFuint8 (Option.some_get (isSome_encode_ten v)).symm 0 0#64
  rwa [BitVec.shiftLeft_zero, BitVec.zero_or] at h

theorem reads_readInt32 (v : BitVec 32) : Reader.Reads readInt32 (writeInt32 v) v := by
  have h := (reads_readUint32 (encodeZigzag32 v)).map decodeZigzag32
  rwa [decodeZigzag32, encodeZigzag32, Zigzag.decode_encode] at h

theorem reads_readInt64 (v : BitVec 64) : Reader.Reads readInt64 (writeInt64 v) v := by
  have h := (reads_readUint64 (encodeZigzag64 v)).map decodeZigzag64
  rwa [decodeZigzag64, encodeZigzag64, Zigzag.decode_encode] at h

theorem takes_readUint32 : Reader.Takes readUint32 fun _ => 1 :=
  Varint.takes_read (Reader.Takes.next _) 5 0 0

theorem takes_readUint64 : Reader.Takes readUint64 fun _ => 1 :=
  Varint.takes_read (Reader.Takes.next _) 10 0 0

/-- A number takes at least one byte. -/
theorem length_writeUint64_pos (v : BitVec 64) : 0 < (writeUint64 v).length := by
  apply List.length_pos_of_ne_nil
  intro hnil
  -- otherwise reading it back would succeed on the empty stream
  have h := reads_readUint64 v []
  rw [hnil] at h
  cases h

/-! ## strings -/

/-- `writeStringVint(s)`: the length as a varint, then the characters. -/
def writeStringVint (s : Bytes) : Bytes := writeUint64 (BitVec.ofNat 64 s.length) ++ s

section
variable [Machine]

/-- `s.resize(n)` for an empty string `s`. -/
def resize (n : Nat) : Except Fault Unit :=
  if Machine.maxSize < n then .error .lengthError
  else if Machine.hasMemory n then .ok () else .error .badAlloc

/-- `s.resize(n)` before a read from a buffer that has `left` bytes left.  That
there is memory for as many as that is taken for granted. -/
def resizeFor (n left : Nat) : Except Fault Unit := if left < n then resize n else .ok ()

/-- `s.resize(n); read(&s[0], n)`. -/
def readChars (n : Nat) : Decoder Bytes := fun s => do
  resizeFor n s.length
  Reader.take FlatBuffer.outOfData n s

/-- `readStringVint()`. -/
def readStringVint : Decoder Bytes := do
  let len ← readUint64
  readChars len.toNat

/-- What is thrown for `n` characters where fewer are left. -/
def tooShort (n : Nat) : Fault :=
  match resize n with
  | .error e => e
  | .ok () => FlatBuffer.outOfData

/-- To the reader, the resize decides which exception it is. -/
theorem readChars_eq (n : Nat) : readChars n = Reader.take (tooShort n) n := by
  funext s
  unfold readChars resizeFor Reader.take tooShort
  by_cases hn : s.length < n
  · rw [if_pos hn, if_pos hn, if_pos hn]
    cases resize n <;> rfl
  · rw [if_neg hn, if_neg hn, if_neg hn]
    rfl

theorem reads_readStringVint {s : Bytes} (h : s.length < 2 ^ 64) :
    Reader.Reads readStringVint (writeStringVint s) s := by
  apply (reads_readUint64 _).bind
  rw [readChars_eq]
  exact Reader.Reads.take _ (by rw [BitVec.toNat_ofNat, Nat.mod_eq_of_lt h])

/-- A string takes its characters and at least one byte before them. -/
theorem takes_readStringVint : Reader.Takes readStringVint fun s => 1 + s.length :=
  takes_readUint64.bind fun len => by
    rw [readChars_eq]
    exact Reader.Takes.take _ _

end

/-! ## what a decoder can do -/

/-- What a decoder throws: `read` for want of bytes, or the resize of a string
before it. -/
def Fault.Thrown (e : Fault) : Prop :=
  e = FlatBuffer.outOfData ∨ e = .lengthError ∨ e = .badAlloc

theorem thrown_outOfData : FlatBuffer.outOfData.Thrown := .inl rfl

theorem not_thrown_nullNode : ¬ Fault.nullNode.Thrown := by
  rintro (h | h | h) <;> cases h

theorem thrown_resize [Machine] {n : Nat} {e : Fault} (h : resize n = .error e) : e.Thrown := by
  unfold resize at h
  split at h
  · cases h
    exact .inr (.inl rfl)
  · split at h
    · cases h
    · cases h
      exact .inr (.inr rfl)

theorem thrown_resizeFor [Machine] {n left : Nat} {e : Fault} (h : resizeFor n left = .error e) :
    e.Thrown := by
  unfold resizeFor at h
  split at h
  · exact thrown_resize h
  · cases h

theorem thrown_tooShort [Machine] (n : Nat) : (tooShort n).Thrown := by
  unfold tooShort
  cases h : resize n with
  | error e => exact thrown_resize h
  | ok _ => exact thrown_outOfData

theorem scans_readFixed [Machine] (n : Nat) (e : Endian) :
    Reader.Scans (· = FlatBuffer.outOfData) (readFixed n e) :=
  (Reader.Scans.take (E := (· = FlatBuffer.outOfData)) rfl n).bind fun _ => .pure _ _

theorem scans_readFuint8 : Reader.Scans (· = FlatBuffer.outOfData) readFuint8 := .next rfl

theorem scans_readUint32 : Reader.Scans (· = FlatBuffer.outOfData) readUint32 :=
  Varint.scans_read scans_readFuint8 5 0 0

theorem scans_readUint64 : Reader.Scans (· = FlatBuffer.outOfData) readUint64 :=
  Varint.scans_read scans_readFuint8 10 0 0

section
variable [Machine]

theorem scans_readChars (n : Nat) : Reader.Scans Fault.Thrown (readChars n) := by
  rw [readChars_eq]
  exact Reader.Scans.take (thrown_tooShort n) n

theorem scans_readStringVint : Reader.Scans Fault.Thrown readStringVint :=
  (scans_readUint64.mono fun _ => .inl).bind fun len => scans_readChars len.toNat

/-- A string is not longer than what it is read from. -/
theorem length_le_of_readStringVint {s str rest : Bytes}
    (h : readStringVint s = .ok (str, rest)) : str.length ≤ s.length := by
  unfold readStringVint at h
  rw [Reader.bind_apply] at h
  cases hlen : readUint64 s with
  | error e => simp [hlen, bind, Except.bind] at h
  | ok p =>
      obtain ⟨len, chars⟩ := p
      obtain ⟨xs, rfl, -⟩ := scans_readUint64.reads s len chars hlen
      simp only [hlen, bind, Except.bind, readChars_eq, Reader.take_eq_ok] at h
      obtain ⟨rfl, -⟩ := h
      simp only [List.length_append]
      omega

/-- The bytes start with a whole string: a complete length, and no fewer
characters after it. -/
def HoldsString (s : Bytes) : Prop :=
  ∃ len rest, readUint64 s = .ok (len, rest) ∧ len.toNat ≤ rest.length

/-- A string can be read exactly where one is. -/
theorem exists_readStringVint_iff {s : Bytes} :
    (∃ str rest, readStringVint s = .ok (str, rest)) ↔ HoldsString s := by
  unfold HoldsString readStringVint
  rw [Reader.bind_apply]
  cases hlen : readUint64 s with
  | error e => simp [bind, Except.bind]
  | ok p =>
      obtain ⟨len, rest⟩ := p
      simp only [bind, Except.bind, Except.ok.injEq, Prod.mk.injEq, readChars_eq,
        Reader.take_eq_ok]
      constructor
      · rintro ⟨str, rest', rfl, hlen⟩
        exact ⟨len, _, ⟨rfl, rfl⟩, by rw [List.length_append]; omega⟩
      · rintro ⟨_, _, ⟨rfl, rfl⟩, hle⟩
        exact ⟨_, _, (List.take_append_drop len.toNat rest).symm,
          by rw [List.length_take]; omega⟩

/-- Anywhere else the read throws. -/
theorem readStringVint_eq_error {s : Bytes} (h : ¬ HoldsString s) :
    ∃ e, e.Thrown ∧ readStringVint s = .error e := by
  cases hs : readStringVint s with
  | error e => exact ⟨e, scans_readStringVint.fails s e hs, rfl⟩
  | ok p => exact absurd (exists_readStringVint_iff.mp ⟨p.1, p.2, hs⟩) h

end

end XzmjxRpc
