import XzmjxRpc.Utils.Codec

/-!
# XzmjxRpc.Utils.Codec.Fixed

The numbers of fixed width between machines.

Each writer and each reader casts on its own, from the machine's byte order to
the configured one, and leaving the cast out of both would show on no machine
that reads what it wrote.  So a writer is compared with the base-256 digits of
the number (`Portable.bytes`), and the reader that takes them back runs on a
machine of its own (`Portable.reads`).
-/

namespace XzmjxRpc

/-- The base-256 digits of `x` modulo `256 ^ n`, in the given order. -/
def Endian.digits (n : Nat) (x : Int) : Endian → Bytes
  | .little => Digits.ofNat n (x % 256 ^ n).toNat
  | .big => (Digits.ofNat n (x % 256 ^ n).toNat).reverse

/-- The types `ByteArray` writes at a fixed width. -/
inductive FixedType where
  | fint8
  | fuint8
  | fint16
  | fuint16
  | fint32
  | fuint32
  | fint64
  | fuint64
  | float
  | double
  deriving DecidableEq, Repr

namespace FixedType

/-- `sizeof`. -/
def size : FixedType → Nat
  | fint8 | fuint8 => 1
  | fint16 | fuint16 => 2
  | fint32 | fuint32 | float => 4
  | fint64 | fuint64 | double => 8

/-- The number a value is; for a floating type, that of its bit pattern. -/
def number : (t : FixedType) → BitVec (8 * t.size) → Int
  | fint8, v | fint16, v | fint32, v | fint64, v => v.toInt
  | fuint8, v | fuint16, v | fuint32, v | fuint64, v | float, v | double, v => v.toNat

section
variable [Machine]

/-- The function that writes the type. -/
def write : (t : FixedType) → Endian → BitVec (8 * t.size) → Bytes
  | fint8, _, v => writeFint8 v
  | fuint8, _, v => writeFuint8 v
  | fint16, e, v => writeFint16 e v
  | fuint16, e, v => writeFuint16 e v
  | fint32, e, v => writeFint32 e v
  | fuint32, e, v => writeFuint32 e v
  | fint64, e, v => writeFint64 e v
  | fuint64, e, v => writeFuint64 e v
  | float, e, v => writeFloat e v
  | double, e, v => writeDouble e v

/-- The matching function that reads it. -/
def read : (t : FixedType) → Endian → Decoder (BitVec (8 * t.size))
  | fint8, _ => readFint8
  | fuint8, _ => readFuint8
  | fint16, e => readFint16 e
  | fuint16, e => readFuint16 e
  | fint32, e => readFint32 e
  | fuint32, e => readFuint32 e
  | fint64, e => readFint64 e
  | fuint64, e => readFuint64 e
  | float, e => readFloat e
  | double, e => readDouble e

end

/-- A value is its number modulo `256 ^ size`. -/
theorem number_emod (t : FixedType) (v : BitVec (8 * t.size)) :
    (t.number v % 256 ^ t.size).toNat = v.toNat := by
  have hpow : (256 : Int) ^ t.size = ((2 ^ (8 * t.size) : Nat) : Int) := by
    rw [Endian.two_pow_mul_eight]
    exact (Int.natCast_pow 256 t.size).symm
  have hsigned : (v.toInt % 256 ^ t.size).toNat = v.toNat := by
    rw [hpow, BitVec.toInt_eq_toNat_bmod, Int.bmod_emod, ← Int.natCast_emod,
      Int.toNat_natCast, Nat.mod_eq_of_lt v.isLt]
  have hunsigned : ((v.toNat : Int) % 256 ^ t.size).toNat = v.toNat := by
    rw [hpow, ← Int.natCast_emod, Int.toNat_natCast, Nat.mod_eq_of_lt v.isLt]
  cases t with
  | fint8 | fint16 | fint32 | fint64 => exact hsigned
  | fuint8 | fuint16 | fuint32 | fuint64 | float | double => exact hunsigned

/-- Digits in an order are the bytes of the value as they lie in that order. -/
theorem digits_number (t : FixedType) (e : Endian) (v : BitVec (8 * t.size)) :
    e.digits t.size (t.number v) = e.bytes v := by
  cases e <;> rw [Endian.digits, Endian.bytes, number_emod]

/-- A byte lies the same in both orders. -/
theorem bytes_byte (e : Endian) (v : BitVec (8 * 1)) : e.bytes v = [v] := by
  have hdigits : Digits.ofNat 1 v.toNat = [v] := by
    rw [Digits.ofNat, BitVec.ofNat_toNat, BitVec.setWidth_eq]
    rfl
  cases e <;> rw [Endian.bytes, hdigits]
  rfl

/-- On any machine, the bytes of the configured order are written. -/
theorem write_eq [Machine] (t : FixedType) (e : Endian) (v : BitVec (8 * t.size)) :
    t.write e v = e.bytes v := by
  cases t with
  | fint8 | fuint8 => exact (bytes_byte e v).symm
  | fint16 | fuint16 | fint32 | fuint32 | fint64 | fuint64 | float | double =>
      exact writeFixed_eq e v

/-- On any machine, the bytes of the configured order are read. -/
theorem reads_read [Machine] (t : FixedType) (e : Endian) (v : BitVec (8 * t.size)) :
    Reader.Reads (t.read e) (e.bytes v) v := by
  cases t with
  | fint8 | fuint8 =>
      rw [show e.bytes v = [v] from bytes_byte e v]
      exact Reader.Reads.next _ v
  | fint16 | fuint16 | fint32 | fuint32 | fint64 | fuint64 | float | double =>
      have h := reads_readFixed e v
      rwa [writeFixed_eq] at h

/-- A type whose values can be sent from any machine to any other. -/
structure Portable (t : FixedType) : Prop where
  /-- Whatever the machine, the digits of the number are written. -/
  bytes : ∀ (m : Machine) (e : Endian) (v : BitVec (8 * t.size)),
    @write m t e v = e.digits t.size (t.number v)
  /-- Whatever the two machines, the value is read back. -/
  reads : ∀ (m m' : Machine) (e : Endian) (v : BitVec (8 * t.size)),
    Reader.Reads (@read m' t e) (@write m t e v) v

/-- **Any two machines**: every type of fixed width is written as the base-256
digits of its number in the configured order, and read back on a machine of
either order. -/
theorem portable (t : FixedType) : t.Portable where
  bytes m e v := by rw [@write_eq m, digits_number]
  reads m m' e v := by
    rw [@write_eq m]
    exact @reads_read m' t e v

/-- A negative number in both orders. -/
example : Endian.digits 2 (-2) .big = [0xff, 0xfe] ∧ Endian.digits 2 (-2) .little = [0xfe, 0xff] :=
  by decide

end FixedType

end XzmjxRpc
