import XzmjxRpc.Utils.Codec

/-!
# XzmjxRpc.Utils.Codec.Strings

The strings of `ByteArray` behind a length of fixed width: `length(fixed)+data`,
as its header has it.

The data is always whole and the length is cut to its width, so a string comes
back exactly when its length fits (`reads_readStringF_iff`).  And
`readStringF64` takes a length of two bytes where `writeStringF64` writes
eight: it never takes what was written (`readStringF64_ne`).
-/

namespace XzmjxRpc

variable [Machine]

/-- `writeStringF16(s)`. -/
def writeStringF16 (e : Endian) (s : Bytes) : Bytes :=
  writeFuint16 e (BitVec.ofNat 16 s.length) ++ s

/-- `writeStringF32(s)`. -/
def writeStringF32 (e : Endian) (s : Bytes) : Bytes :=
  writeFuint32 e (BitVec.ofNat 32 s.length) ++ s

/-- `writeStringF64(s)`. -/
def writeStringF64 (e : Endian) (s : Bytes) : Bytes :=
  writeFuint64 e (BitVec.ofNat 64 s.length) ++ s

/-- A length by the given reader, converted to a `size_t`, and then
`s.resize(len); read(&s[0], len)`. -/
def readStringF {w : Nat} (readLen : Decoder (BitVec w)) (size : BitVec w → Nat) :
    Decoder Bytes := do
  let len ← readLen
  readChars (size len)

/-- `readStringF16()`: `uint16_t len = readFint16()`. -/
def readStringF16 (e : Endian) : Decoder Bytes := readStringF (readFint16 e) fun len => len.toNat

/-- `readStringF32()`: `uint32_t len = readFint32()`. -/
def readStringF32 (e : Endian) : Decoder Bytes := readStringF (readFint32 e) fun len => len.toNat

/-- `readStringF64()`: `uint64_t len = readFint16()`, two bytes and their sign. -/
def readStringF64 (e : Endian) : Decoder Bytes :=
  readStringF (readFint16 e) fun len => (len.signExtend 64).toNat

/-! ## a length as wide as it was written -/

/-- A string comes back if and only if its length fits. -/
theorem reads_readStringF_iff {n : Nat} (e : Endian) (s : Bytes) :
    Reader.Reads (readStringF (readFixed n e) fun len => len.toNat)
      (writeFixed e (BitVec.ofNat (8 * n) s.length) ++ s) s ↔ s.length < 2 ^ (8 * n) := by
  constructor
  · intro h
    have hread := h []
    rw [List.append_assoc, readStringF, Reader.bind_apply, reads_readFixed] at hread
    simp only [readChars_eq] at hread
    have hlen := (Reader.take_eq_ok.mp hread).2
    rw [hlen]
    exact (BitVec.ofNat (8 * n) s.length).isLt
  · intro h
    have hlen : (BitVec.ofNat (8 * n) s.length).toNat = s.length := Nat.mod_eq_of_lt h
    apply (reads_readFixed e _).bind
    rw [readChars_eq]
    exact Reader.Reads.take _ hlen.symm

/-- **Long strings**: a string written behind a length of two, or four, bytes
is read back, whatever follows it, exactly when it has fewer than `2 ^ 16`, or
`2 ^ 32`, characters.  No string is refused. -/
theorem reads_readStringF16_F32_iff (e : Endian) (s : Bytes) :
    (Reader.Reads (readStringF16 e) (writeStringF16 e s) s ↔ s.length < 2 ^ 16) ∧
    (Reader.Reads (readStringF32 e) (writeStringF32 e s) s ↔ s.length < 2 ^ 32) :=
  ⟨reads_readStringF_iff (n := 2) e s, reads_readStringF_iff (n := 4) e s⟩

omit [Machine] in
/-- Of 65536 characters the length that is written is zero. -/
theorem not_reads_readStringF16 : letI := x86_64
    ¬ ∀ r, readStringF16 .big (writeStringF16 .big (List.replicate 65536 97) ++ r) =
      .ok (List.replicate 65536 97, r) := by
  intro h
  let m := x86_64
  have hfit := (reads_readStringF_iff (n := 2) .big (List.replicate 65536 97)).mp h
  rw [List.length_replicate] at hfit
  exact absurd hfit (by decide)

/-! ## a length of another width -/

/-- What a reader of strings takes: the length's bytes and the characters. -/
theorem length_readStringF {n : Nat} {e : Endian} {size : BitVec (8 * n) → Nat}
    {xs s rest : Bytes} (h : readStringF (readFixed n e) size xs = .ok (s, rest)) :
    xs.length = n + s.length + rest.length := by
  rw [readStringF, Reader.bind_apply, readFixed, Reader.bind_apply] at h
  simp only [readChars_eq] at h
  cases hlen : Reader.take FlatBuffer.outOfData n xs with
  | error f =>
      rw [hlen] at h
      cases h
  | ok p =>
      obtain ⟨len, data⟩ := p
      rw [hlen] at h
      obtain ⟨rfl, -⟩ := Reader.take_eq_ok.mp (show Reader.take _ _ data = .ok (s, rest) from h)
      obtain ⟨rfl, hn⟩ := Reader.take_eq_ok.mp hlen
      rw [List.length_append, List.length_append, hn]
      omega

/-- **Never**: no string comes back from `readStringF64` with what follows it
left. -/
theorem readStringF64_ne (e : Endian) (s r : Bytes) :
    readStringF64 e (writeStringF64 e s ++ r) ≠ .ok (s, r) := by
  intro h
  have hlen := length_readStringF (n := 2) h
  have hwritten : (writeStringF64 e s).length = 8 + s.length := by
    rw [writeStringF64, List.length_append, writeFuint64, writeFixed_eq, Endian.length_bytes]
  rw [List.length_append, hwritten] at hlen
  omega

omit [Machine] in
/-- The length `0 … 1` is taken for `0`, and the rest of it for what follows. -/
theorem not_reads_readStringF64 : letI := x86_64
    ¬ ∀ s r, readStringF64 .big (writeStringF64 .big s ++ r) = .ok (s, r) := by
  intro h
  let m := x86_64
  have hone : readStringF64 .big (writeStringF64 .big [97] ++ []) =
      .ok ([], [0, 0, 0, 0, 0, 1, 97]) := by decide +kernel
  rw [h [97] []] at hone
  cases hone

end XzmjxRpc
