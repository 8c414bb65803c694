import XzmjxRpc.Rpc.Session.Forward

/-!
# XzmjxRpc.Rpc.Session.Throws

When an exception leaves `recvProtocol`.  The header is decoded only from 20
bytes or more, so it never throws; the text in front of the payload is decoded
from whatever the peer sent as a body, and nothing catches what that throws.
-/

namespace XzmjxRpc

open Protocol

/-! ## the header -/

/-- A loop that reports success has put what it was to read into the buffer. -/
theorem le_length_readLoop {cut : Nat → Int} {length rounds : Nat} {left : Int}
    {ba : FlatBuffer Byte} {c : Conn} (hba : ba.position = ba.data.length)
    (hrounds : left.toNat ≤ rounds) (h : 0 < (readLoop cut length rounds left ba c).1) :
    ba.data.length + left.toNat ≤ (readLoop cut length rounds left ba c).2.1.data.length := by
  induction rounds generalizing left ba c with
  | zero =>
      rw [readLoop]
      simp only
      omega
  | succ n ih =>
      by_cases hleft : 0 < left
      · obtain ⟨hrt, hround⟩ := readLoop_round hleft h
        have hgot := (c.got_le cut length).2
        generalize c.got cut length = got at hrt hround hgot
        have hrt_le : (toInt got).toNat ≤ got := Int.toNat_le.mpr (toInt_natCast_le got)
        generalize toInt got = rt at hrt hround hrt_le
        rw [hround] at h ⊢
        have hwrite := FlatBuffer.data_write_of_eq hba ((c.stream.take got).take rt.toNat)
        have hlen : (ba.write ((c.stream.take got).take rt.toNat)).data.length =
            ba.data.length + rt.toNat := by
          rw [hwrite, List.length_append, List.length_take, List.length_take]
          omega
        have hpos : (ba.write ((c.stream.take got).take rt.toNat)).position =
            (ba.write ((c.stream.take got).take rt.toNat)).data.length := by
          rw [hwrite, FlatBuffer.position_write, hba, List.length_append]
        have hrest := ih hpos (by omega) h
        omega
      · rw [readLoop, if_neg hleft]
        simp only
        omega

/-- What comes in as a header has at least the header's length. -/
theorem kHeaderLen_le_readFixedSize (cut : Nat → Int) (c : Conn)
    (h : 0 < (readFixedSize cut .new kHeaderLen c).1) :
    kHeaderLen ≤ (readFixedSize cut .new kHeaderLen c).2.1.data.length := by
  have hint : toInt kHeaderLen = kHeaderLen := rfl
  rw [readFixedSize, hint] at h ⊢
  let ba : FlatBuffer Byte := .new
  have hba : ba.position = ba.data.length := rfl
  have hle := le_length_readLoop hba (Nat.le_refl _) h
  simpa [ba] using hle

section
variable [Machine]

/-- A buffer that starts with a header decodes to that header. -/
theorem recvHeader_headerOf {n : Int} (hn : 0 < n) {bt : FlatBuffer Byte}
    (h : kHeaderLen ≤ bt.data.length) :
    ∃ bt', recvHeader n bt =
      if (headerOf bt.data).magic ≠ kMagic then .ok none
      else if (headerOf bt.data).version ≠ kDefaultVersion then .ok none
      else .ok (some (headerOf bt.data, bt')) := by
  have hdata : bt.rewind.toString =
      (headerOf bt.data).encodeHeader ++ bt.data.drop kHeaderLen := by
    rw [FlatBuffer.toString_rewind, encodeHeader_headerOf h, List.take_append_drop]
  obtain ⟨bt', hrun, -, -⟩ :=
    FlatBuffer.run_of_reads (reads_decodeHeader (errCode_headerOf bt.data) {}) hdata
  refine ⟨bt', ?_⟩
  rw [recvHeader, if_neg (by omega), if_neg (by omega), hrun]
  rfl

/-! ## the body -/

/-- The body throws exactly when it should start with a text and does not. -/
theorem recvBody_eq_error_iff (p : Protocol) (n : Int) (bt : FlatBuffer Byte) :
    (∃ e, recvBody p n bt = .error e) ↔
      0 < n ∧ p.carryMsg = true ∧ ¬ HoldsString bt.data := by
  unfold recvBody
  by_cases hn : n ≤ 0
  · rw [if_pos hn]
    exact iff_of_false (by rintro ⟨e, ⟨⟩⟩) (fun h => by omega)
  rw [if_neg hn]
  by_cases hcarry : p.carryMsg = true
  · rw [if_pos hcarry]
    by_cases hs : HoldsString bt.data
    · obtain ⟨text, rest, hread⟩ := exists_readStringVint_iff.mpr hs
      rw [FlatBuffer.run, FlatBuffer.toString_rewind, hread]
      exact iff_of_false (by rintro ⟨e, ⟨⟩⟩) (fun h => h.2.2 hs)
    · obtain ⟨e, -, herr⟩ := readStringVint_eq_error hs
      rw [FlatBuffer.run, FlatBuffer.toString_rewind, herr]
      exact iff_of_true ⟨e, rfl⟩ ⟨by omega, hcarry, hs⟩
  · rw [if_neg hcarry]
    exact iff_of_false (by rintro ⟨e, ⟨⟩⟩) (fun h => hcarry h.2.1)

/-- What the peer sent, as the transport delivered it, is a header of ours with
the carry bit and a length, and a body that does not start with a whole text. -/
def TextMissing (cut : Nat → Int) (c : Conn) : Prop :=
  let head := readFixedSize cut .new kHeaderLen c
  let msg := headerOf head.2.1.data
  let body := readFixedSize cut .new msg.payloadLen.toNat head.2.2
  0 < head.1 ∧ msg.magic = kMagic ∧ msg.version = kDefaultVersion ∧ msg.payloadLen ≠ 0 ∧
    0 < body.1 ∧ msg.carryMsg = true ∧ ¬ HoldsString body.2.1.data

omit [Machine] in
/-- When the transport delivers everything at once and the declared length is
no more than an `int` holds: the bytes themselves. -/
theorem textMissing_deliverAll {stream : Bytes}
    (h31 : (headerOf stream).payloadLen.toNat < 2 ^ 31) :
    TextMissing deliverAll { stream := stream } ↔
      kHeaderLen + (headerOf stream).payloadLen.toNat ≤ stream.length ∧
      (headerOf stream).magic = kMagic ∧ (headerOf stream).version = kDefaultVersion ∧
      (headerOf stream).payloadLen ≠ 0 ∧ (headerOf stream).carryMsg = true ∧
      ¬ HoldsString ((stream.drop kHeaderLen).take (headerOf stream).payloadLen.toNat) := by
  rw [TextMissing]
  by_cases hlen : kHeaderLen ≤ stream.length
  · have hfirst := readFixedSize_deliverAll (c := { stream := stream }) FlatBuffer.new
      (by decide : 0 < kHeaderLen) (by decide) hlen
    have hhead : headerOf (stream.take kHeaderLen) = headerOf stream := by
      have h := headerOf_append (b := stream.take kHeaderLen)
        (by rw [List.length_take]; omega) (stream.drop kHeaderLen)
      rw [List.take_append_drop] at h
      exact h.symm
    rw [hfirst, FlatBuffer.data_new_write, hhead]
    have h20 : (0 : Int) < (kHeaderLen : Nat) := by decide
    generalize headerOf stream = msg at h31 ⊢
    by_cases h0 : msg.payloadLen = 0
    · exact iff_of_false (fun h => h.2.2.2.1 h0) (fun h => h.2.2.2.1 h0)
    have hpos : 0 < msg.payloadLen.toNat :=
      Nat.pos_of_ne_zero fun h => h0 (BitVec.eq_of_toNat_eq h)
    by_cases hfit : msg.payloadLen.toNat ≤ (stream.drop kHeaderLen).length
    · rw [readFixedSize_deliverAll (c := ⟨stream.drop kHeaderLen, _⟩) FlatBuffer.new hpos h31 hfit,
        FlatBuffer.data_new_write]
      rw [List.length_drop] at hfit
      constructor
      · rintro ⟨-, hmagic, hversion, -, -, hcarry, htext⟩
        exact ⟨by omega, hmagic, hversion, h0, hcarry, htext⟩
      · rintro ⟨-, hmagic, hversion, -, hcarry, htext⟩
        exact ⟨h20, hmagic, hversion, h0, Int.natCast_pos.mpr hpos, hcarry, htext⟩
    · have hshort := readFixedSize_deliverAll_short FlatBuffer.new
        (c := ⟨stream.drop kHeaderLen, [⟨(kHeaderLen : Nat), kHeaderLen⟩]⟩) h31
        (Nat.lt_of_not_le hfit)
      rw [List.length_drop] at hfit
      exact iff_of_false (fun h => absurd h.2.2.2.2.1 (by rw [hshort]; decide))
        (fun h => by have := h.1; omega)
  · have hshort := readFixedSize_deliverAll_short (c := { stream := stream }) FlatBuffer.new
      (by decide : kHeaderLen < 2 ^ 31) (by simpa using hlen)
    exact iff_of_false (fun h => by have := h.1; omega) (fun h => by omega)

/-- **Exceptions**: on every transport and for every stream, `recvProtocol`
returns a message or null exactly when no text is missing. -/
theorem recvProtocol_returns_iff (cut : Nat → Int) (c : Conn) :
    (∃ o c', recvProtocol (readFixedSize cut) c = (.ok o, c')) ↔ ¬ TextMissing cut c := by
  rw [recvProtocol, TextMissing]
  have hlen := kHeaderLen_le_readFixedSize cut c
  generalize readFixedSize cut .new kHeaderLen c = head at hlen ⊢
  -- without a header of ours the result is null
  have hnull (h : recvHeader head.1 head.2.1 = .ok none) :
      ∃ o c', recvRest (readFixedSize cut) head = (.ok o, c') := ⟨_, _, recvRest_none h⟩
  by_cases hn : 0 < head.1
  · obtain ⟨bt', hheader⟩ := recvHeader_headerOf hn (hlen hn)
    have hget : (headerOf head.2.1.data).getPayloadLength = (headerOf head.2.1.data).payloadLen :=
      BitVec.sub_zero _
    generalize headerOf head.2.1.data = msg at hheader hget ⊢
    by_cases hmagic : msg.magic = kMagic
    · rw [if_neg (not_not_intro hmagic)] at hheader
      by_cases hversion : msg.version = kDefaultVersion
      · rw [if_neg (not_not_intro hversion)] at hheader
        by_cases h0 : msg.payloadLen = 0
        · exact iff_of_true ⟨_, _, recvRest_empty hheader (hget.trans h0)⟩ (fun h => h.2.2.2.1 h0)
        · rw [recvRest_body hheader (by rwa [hget]), hget, FlatBuffer.clear_eq, recvFinish]
          generalize readFixedSize cut .new msg.payloadLen.toNat head.2.2 = body
          have hbody := recvBody_eq_error_iff msg body.1 body.2.1
          cases hb : recvBody msg body.1 body.2.1 with
          | error e =>
              obtain ⟨hpos, hcarry, htext⟩ := hbody.mp ⟨e, hb⟩
              exact iff_of_false (by rintro ⟨o, c', ⟨⟩⟩)
                (not_not_intro ⟨hn, hmagic, hversion, h0, hpos, hcarry, htext⟩)
          | ok o =>
              refine iff_of_true ⟨o, _, rfl⟩ ?_
              rintro ⟨-, -, -, -, htext⟩
              obtain ⟨e, he⟩ := hbody.mpr htext
              cases hb.symm.trans he
      · rw [if_pos hversion] at hheader
        exact iff_of_true (hnull hheader) (fun h => hversion h.2.2.1)
    · rw [if_pos hmagic] at hheader
      exact iff_of_true (hnull hheader) (fun h => hmagic h.2.1)
  · refine iff_of_true (hnull ?_) (fun h => hn h.1)
    unfold recvHeader
    split
    · rfl
    · rw [if_pos (by omega)]

end

/-- A header with the carry bit and a body of one byte, which announces a text
of five bytes. -/
theorem recvProtocol_throws :
    letI := x86_64
    (recvProtocol (readFixedSize deliverAll)
      { stream := [0xfc, 0x10, 1, 3] ++ List.replicate 15 0 ++ [1, 5] }).1 =
      .error (.outOfRange "not enough data to read") := by
  decide +kernel

end XzmjxRpc
