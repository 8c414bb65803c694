import XzmjxRpc.Rpc.Protocol

/-!
# XzmjxRpc.Rpc.Protocol.Header

The header both ways.  Every 20 bytes are the header of some message, and
encoding that message gives the bytes back; a message whose error code leaves
room for the carry bit is decoded to what was encoded (`header_roundTrip`).
The decoder's readers are signed where the encoder's writers are not, which no
bit of a field shows.
-/

namespace XzmjxRpc

open Protocol

/-! ## a header encodes to the bytes it was decoded from -/

/-- The header that the first 20 bytes of `b` spell. -/
def headerOf (b : Bytes) : Protocol where
  magic := b.getD 0 0
  version := b.getD 1 0
  type := ⟨b.getD 2 0⟩
  errCode := ⟨b.getD 3 0 >>> 1⟩
  carryMsg := decide (b.getD 3 0 &&& 1 ≠ 0)
  seq := Endian.big.value 8 ((b.drop 4).take 8)
  payloadLen := Endian.big.value 8 ((b.drop 12).take 8)

/-- The code above the carry bit makes the fourth header byte. -/
theorem shift_errCode (c : Byte) :
    ((c >>> 1) <<< 1) ||| (if decide (c &&& 1 ≠ 0) then 1 else 0) = c := by
  have hall : ∀ c : Byte,
      ((c >>> 1) <<< 1) ||| (if decide (c &&& 1 ≠ 0) then 1 else 0) = c := by decide +kernel
  exact hall c

theorem errCode_headerOf (b : Bytes) : (headerOf b).errCode.raw.toNat < 128 := by
  show ((b.getD 3 0) >>> 1).toNat < 128
  rw [BitVec.toNat_ushiftRight, Nat.shiftRight_eq_div_pow]
  have := (b.getD 3 0).isLt
  omega

/-- The header of a longer string is that of its front. -/
theorem headerOf_append {b : Bytes} (h : kHeaderLen ≤ b.length) (rest : Bytes) :
    headerOf (b ++ rest) = headerOf b := by
  have hlen : 20 ≤ b.length := h
  have hget : ∀ i, i < 4 → (b ++ rest).getD i 0 = b.getD i 0 := by
    intro i hi
    simp only [List.getD_eq_getElem?_getD, List.getElem?_append_left (show i < b.length by omega)]
  have hdrop : ∀ i, i ≤ 12 → ((b ++ rest).drop i).take 8 = (b.drop i).take 8 := by
    intro i hi
    rw [List.drop_append_of_le_length (by omega), List.take_append_of_le_length (by simp; omega)]
  simp only [headerOf, hget 0 (by omega), hget 1 (by omega), hget 2 (by omega), hget 3 (by omega),
    hdrop 4 (by omega), hdrop 12 (by omega)]

section
variable [Machine]

theorem encodeHeader_headerOf {b : Bytes} (h : kHeaderLen ≤ b.length) :
    (headerOf b).encodeHeader = b.take kHeaderLen := by
  have hlen : 20 ≤ b.length := h
  obtain ⟨b₀, b₁, b₂, b₃, t, rfl⟩ : ∃ b₀ b₁ b₂ b₃ t, b = b₀ :: b₁ :: b₂ :: b₃ :: t := by
    match b, hlen with
    | b₀ :: b₁ :: b₂ :: b₃ :: t, _ => exact ⟨b₀, b₁, b₂, b₃, t, rfl⟩
  simp only [List.length_cons] at hlen
  have hseq : (t.take 8).length = 8 := by simp; omega
  have hpay : ((t.drop 8).take 8).length = 8 := by simp; omega
  have htake : (b₀ :: b₁ :: b₂ :: b₃ :: t).take kHeaderLen =
      [b₀, b₁, b₂, b₃] ++ (t.take 8 ++ (t.drop 8).take 8) := by
    rw [← List.take_add]
    rfl
  have hcode := shift_errCode b₃
  rw [htake]
  simp only [encodeHeader, headerOf, writeFuint8, writeFuint64, writeFixed_eq, List.getD_cons_zero,
    List.getD_cons_succ, List.drop_succ_cons, List.drop_zero, Endian.bytes_value _ hseq,
    Endian.bytes_value _ hpay, hcode]
  rfl

/-- Twenty bytes are the header they spell. -/
theorem encodeHeader_headerOf_self {b : Bytes} (h : b.length = kHeaderLen) :
    (headerOf b).encodeHeader = b := by
  rw [encodeHeader_headerOf (Nat.le_of_eq h.symm), ← h, List.take_length]

/-- Decoding takes exactly a header and leaves the other members alone. -/
theorem decodeHeader_eq {b : Bytes} (h : b.length = kHeaderLen) (q : Protocol) :
    decodeHeader q b = .ok ({ headerOf b with errMsg := q.errMsg, payload := q.payload }, []) := by
  have hreads := reads_decodeHeader (errCode_headerOf b) q []
  rwa [encodeHeader_headerOf_self h, List.append_nil] at hreads

/-- **Both ways**: any 20 bytes decode, and what they decode to encodes to
them; and any message with an error code below 128 encodes to 20 bytes, which
decode, whatever follows them, to all its header fields. -/
theorem header_roundTrip :
    (∀ (q : Protocol) (b : Bytes), b.length = kHeaderLen →
      ∃ p, decodeHeader q b = .ok (p, []) ∧ p.encodeHeader = b) ∧
    ∀ p q : Protocol, p.errCode.raw.toNat < 128 →
      p.encodeHeader.length = kHeaderLen ∧
      Reader.Reads (decodeHeader q) p.encodeHeader
        { p with errMsg := q.errMsg, payload := q.payload } := by
  constructor
  · intro q b h
    exact ⟨_, decodeHeader_eq h q, encodeHeader_headerOf_self h⟩
  · intro p q h
    exact ⟨length_encodeHeader p, reads_decodeHeader h q⟩

end

/-- Bytes with every bit set, and a message with the largest code there is room
for. -/
theorem header_roundTrip_ones : letI := x86_64
    (∃ p, decodeHeader {} (List.replicate 20 0xff) = .ok (p, []) ∧
      p.encodeHeader = List.replicate 20 0xff) ∧
    let p : Protocol := { errCode := ⟨127⟩, carryMsg := true, seq := -1, payloadLen := 1 <<< 63 }
    p.encodeHeader.length = 20 ∧ Reader.Reads (decodeHeader {}) p.encodeHeader p := by
  have h := @header_roundTrip x86_64
  exact ⟨h.1 {} _ (by decide), h.2 _ {} (by decide)⟩

end XzmjxRpc
