import XzmjxRpc.Rpc.Protocol.Header
import XzmjxRpc.Rpc.Session.RoundTrip

/-!
# XzmjxRpc.Rpc.Session.Forward

Encoding what was received.  `recvProtocol` keeps the declared length of the
header, and `encode` takes it for the error text and the payload; but it is
the length of the whole body, the varint of the error text included.  So with
the carry bit set `encode` goes past the end of the payload, or, for an empty
body, adds the length of an empty text.  Without the carry bit the bytes come
out as they came in, as long as the declared length fits an `int`.
-/

namespace XzmjxRpc

open Protocol

/-! ## what a received message looks like -/

/-- A receive from a stream at its end gives nothing. -/
theorem readLoop_deliverAll_nil {length rounds : Nat} {left : Int} {ba : FlatBuffer Byte} {c : Conn}
    (hleft : 0 < left) (hc : c.stream = []) :
    (readLoop deliverAll length (rounds + 1) left ba c).1 = 0 := by
  have hpos : ¬ deliverAll c.rounds.length ≤ 0 := by rw [deliverAll]; omega
  have hgot : c.got deliverAll length = 0 := by simp [Conn.got, hc]
  rw [readLoop, if_pos hleft]
  simp only [socketRead, if_neg hpos, hgot]
  rfl

/-- With too little on the stream, the loop gives up at its end. -/
theorem readFixedSize_deliverAll_short {length : Nat} {c : Conn} (ba : FlatBuffer Byte)
    (h31 : length < 2 ^ 31) (h : c.stream.length < length) :
    (readFixedSize deliverAll ba length c).1 = 0 := by
  have hint : toInt length = length := toInt_of_lt (by omega) (by omega)
  have hpos : ¬ deliverAll c.rounds.length ≤ 0 := by rw [deliverAll]; omega
  have hgot : c.got deliverAll length = c.stream.length := by
    have hall : (deliverAll c.rounds.length).toNat = 2 ^ 64 := rfl
    unfold Conn.got
    rw [hall]
    omega
  obtain ⟨n, rfl⟩ : ∃ n, length = n + 1 := ⟨length - 1, by omega⟩
  rw [readFixedSize, hint, Int.toNat_natCast]
  by_cases hnil : c.stream = []
  · exact readLoop_deliverAll_nil (by omega) hnil
  · have hlen := List.length_pos_of_ne_nil hnil
    have hgotint : toInt c.stream.length = c.stream.length := toInt_of_lt (by omega) (by omega)
    obtain ⟨k, rfl⟩ : ∃ k, n = k + 1 := ⟨n - 1, by omega⟩
    rw [readLoop, if_pos (by omega)]
    simp only [socketRead, if_neg hpos, hgot, hgotint]
    rw [if_neg (by omega)]
    exact readLoop_deliverAll_nil (by omega) (by simp)

/-- A loop that needs nothing reads nothing. -/
theorem readLoop_of_nonpos {cut : Nat → Int} {length rounds : Nat} {left : Int}
    {ba : FlatBuffer Byte} {c : Conn} (hleft : left ≤ 0) :
    readLoop cut length rounds left ba c = (toInt length, ba, c) := by
  cases rounds with
  | zero => rw [readLoop]
  | succ n => rw [readLoop, if_neg (by omega)]

/-- However much is declared, the loop reads less than `2 ^ 31` bytes more
than it needs. -/
theorem length_readLoop {cut : Nat → Int} {length rounds : Nat} {left : Int}
    {ba : FlatBuffer Byte} {c : Conn} (hba : ba.position = ba.data.length) :
    (readLoop cut length rounds left ba c).2.1.data.length <
      ba.data.length + left.toNat + 2 ^ 31 := by
  induction rounds generalizing left ba c with
  | zero =>
      rw [readLoop]
      simp only
      omega
  | succ n ih =>
      rw [readLoop]
      by_cases hleft : 0 < left
      · rw [if_pos hleft]
        by_cases hcut : cut c.rounds.length ≤ 0
        · simp only [socketRead, if_pos hcut]
          omega
        · simp only [socketRead, if_neg hcut]
          generalize c.got cut length = got
          have hgot := toInt_lt got
          generalize toInt got = rt at hgot ⊢
          have hwrite := FlatBuffer.data_write_of_eq hba ((c.stream.take got).take rt.toNat)
          have hlen : (ba.write ((c.stream.take got).take rt.toNat)).data.length ≤
              ba.data.length + rt.toNat := by
            rw [hwrite, List.length_append, List.length_take]
            omega
          split
          · simp only
            omega
          · have hpos : (ba.write ((c.stream.take got).take rt.toNat)).position =
                (ba.write ((c.stream.take got).take rt.toNat)).data.length := by
              rw [hwrite, FlatBuffer.position_write, hba, List.length_append]
            by_cases hdone : left - rt ≤ 0
            · rw [readLoop_of_nonpos hdone]
              simp only
              omega
            · have hrest := @ih (left - rt) _ ⟨c.stream.drop got, ⟨left, got⟩ :: c.rounds⟩ hpos
              omega
      · rw [if_neg hleft]
        simp only
        omega

/-- What a reader took off a buffer is no longer in it. -/
theorem length_run {α : Type} {r : Decoder α} {f : α → Nat} (hr : Reader.Takes r f)
    {bt bt' : FlatBuffer Byte} {a : α} (h : bt.run r = .ok (a, bt')) :
    f a + bt'.toString.length ≤ bt.toString.length := by
  cases hrun : r bt.toString with
  | error e => simp [FlatBuffer.run, hrun, Except.map] at h
  | ok q =>
      obtain ⟨a', rest⟩ := q
      have htakes := hr _ _ _ hrun
      simp only [FlatBuffer.run, hrun, Except.map, Except.ok.injEq, Prod.mk.injEq] at h
      obtain ⟨rfl, rfl⟩ := h
      have hdata : bt.toString.length ≤ bt.data.length := by simp [FlatBuffer.toString]
      show f a' + (bt.data.drop (bt.data.length - rest.length)).length ≤ _
      rw [List.length_drop]
      omega

section
variable [Machine]

/-- What the body adds to the header's message: an error text only with the
carry bit, and then no more than the body's bytes less one. -/
theorem recvBody_spec {p m : Protocol} {n : Int} {bt : FlatBuffer Byte} (hmsg : p.errMsg = [])
    (h : recvBody p n bt = .ok (some m)) :
    m.payloadLen = p.payloadLen ∧ m.carryMsg = p.carryMsg ∧
      m.encodeHeader = p.encodeHeader ∧
      (p.carryMsg = false → m.errMsg = [] ∧ m.payload = bt.data) ∧
      (p.carryMsg = true → m.errMsg.length + m.payload.length < bt.data.length) := by
  unfold recvBody at h
  split at h
  · cases h
  · split at h
    · next hcarry =>
      cases hread : bt.rewind.run readStringVint with
      | error e => rw [hread] at h; cases h
      | ok q =>
          obtain ⟨text, bt'⟩ := q
          rw [hread] at h
          simp only [Except.ok.injEq, Option.some.injEq] at h
          have hset : (p.setErrMsg text).carryMsg = p.carryMsg ∧
              (p.setErrMsg text).payloadLen = p.payloadLen ∧
              (p.setErrMsg text).encodeHeader = p.encodeHeader ∧
              (p.setErrMsg text).errMsg = text := by
            unfold setErrMsg
            split
            · next htext => exact ⟨rfl, rfl, rfl, by rw [hmsg, htext]⟩
            · exact ⟨hcarry.symm, rfl, by simp only [encodeHeader, hcarry], rfl⟩
          obtain ⟨hsetcarry, hsetlen, hsethdr, hseterr⟩ := hset
          have hlen := length_run takes_readStringVint hread
          rw [FlatBuffer.toString_rewind] at hlen
          subst h
          refine ⟨hsetlen, hsetcarry, hsethdr, fun hc => ?_, fun _ => ?_⟩
          · rw [hcarry] at hc
            cases hc
          · show (p.setErrMsg text).errMsg.length + bt'.toString.length < _
            rw [hseterr]
            omega
    · next hcarry =>
      cases h
      refine ⟨rfl, rfl, rfl, fun _ => ?_, fun hc => absurd hc hcarry⟩
      exact ⟨hmsg, FlatBuffer.toString_rewind bt⟩

/-- What was on the stream when a message was returned: a header of ours, and
for a declared length other than zero what the loop made of the body. -/
theorem recvProtocol_inv {stream : Bytes} {m : Protocol} {c : Conn}
    (h : recvProtocol (readFixedSize deliverAll) { stream := stream } = (.ok (some m), c)) :
    kHeaderLen ≤ stream.length ∧
      if (headerOf stream).payloadLen = 0 then
        m = headerOf stream ∧ c.stream = stream.drop kHeaderLen
      else ∃ out, readFixedSize deliverAll .new (headerOf stream).payloadLen.toNat
          ⟨stream.drop kHeaderLen, [⟨(kHeaderLen : Nat), kHeaderLen⟩]⟩ = out ∧
        recvBody (headerOf stream) out.1 out.2.1 = .ok (some m) ∧ c = out.2.2 := by
  by_cases hlen : kHeaderLen ≤ stream.length
  · refine ⟨hlen, ?_⟩
    have hfirst := readFixedSize_deliverAll (c := { stream := stream }) FlatBuffer.new
      (by decide : 0 < kHeaderLen) (by decide) hlen
    simp only [← encodeHeader_headerOf hlen] at hfirst
    rw [recvProtocol, hfirst] at h
    obtain ⟨bt, hheader⟩ := recvHeader_eq (errCode_headerOf stream)
    have hof : ofHeader (headerOf stream) = headerOf stream := rfl
    rw [hof] at hheader
    split at hheader
    · rw [recvRest_none hheader] at h
      cases h
    · split at hheader
      · rw [recvRest_none hheader] at h
        cases h
      · have hget : (headerOf stream).getPayloadLength = (headerOf stream).payloadLen :=
          BitVec.sub_zero _
        by_cases h0 : (headerOf stream).payloadLen = 0
        · rw [recvRest_empty hheader (hget.trans h0)] at h
          cases h
          rw [if_pos h0]
          exact ⟨rfl, rfl⟩
        · rw [recvRest_body hheader (by rwa [hget]), hget, FlatBuffer.clear_eq] at h
          rw [if_neg h0]
          rw [recvFinish, Prod.mk.injEq] at h
          exact ⟨_, rfl, h.1, h.2.symm⟩
  · -- the header is not complete
    have hzero := readFixedSize_deliverAll_short (c := { stream := stream }) FlatBuffer.new
      (by decide : kHeaderLen < 2 ^ 31) (by simpa using hlen)
    rw [recvProtocol, recvRest_none (by rw [recvHeader, if_pos hzero])] at h
    cases h

omit [Machine] in
/-- The loop only takes bytes off the stream. -/
theorem length_stream_readLoop {cut : Nat → Int} {length rounds : Nat} {left : Int}
    {ba : FlatBuffer Byte} {c : Conn} :
    (readLoop cut length rounds left ba c).2.2.stream.length ≤ c.stream.length := by
  induction rounds generalizing left ba c with
  | zero => exact Nat.le_refl _
  | succ n ih =>
      by_cases hleft : 0 < left
      · have hread : (socketRead cut left length ba c).2.2.stream.length ≤ c.stream.length := by
          unfold socketRead
          split <;> simp
        rw [readLoop, if_pos hleft]
        generalize socketRead cut left length ba c = out at hread
        obtain ⟨rt, ba', c'⟩ := out
        simp only at hread ⊢
        split
        · exact hread
        · exact Nat.le_trans ih hread
      · rw [readLoop_of_nonpos (by omega)]

omit [Machine] in
theorem length_stream_readFixedSize {cut : Nat → Int} {length : Nat} {ba : FlatBuffer Byte}
    {c : Conn} : (readFixedSize cut ba length c).2.2.stream.length ≤ c.stream.length := by
  rw [readFixedSize]
  exact length_stream_readLoop

omit [Machine] in
/-- When the loop succeeds, it got what it was to read and left the rest. -/
theorem readFixedSize_deliverAll_inv {length : Nat} {c : Conn} (h0 : 0 < length)
    (h31 : length < 2 ^ 31) (h : 0 < (readFixedSize deliverAll .new length c).1) :
    length ≤ c.stream.length ∧
      (readFixedSize deliverAll .new length c).2.1.data = c.stream.take length ∧
      (readFixedSize deliverAll .new length c).2.2.stream = c.stream.drop length := by
  by_cases hfit : length ≤ c.stream.length
  · rw [readFixedSize_deliverAll _ h0 h31 hfit]
    exact ⟨hfit, FlatBuffer.data_new_write _, rfl⟩
  · rw [readFixedSize_deliverAll_short _ h31 (by omega)] at h
    omega

omit [Machine] in
/-- When it also consumed exactly `s`, it read `s`. -/
theorem data_readFixedSize_deliverAll {length : Nat} {c : Conn} {s rest : Bytes} (h0 : 0 < length)
    (h31 : length < 2 ^ 31) (h : 0 < (readFixedSize deliverAll .new length c).1)
    (hs : c.stream = s ++ rest)
    (hrest : (readFixedSize deliverAll .new length c).2.2.stream = rest) :
    (readFixedSize deliverAll .new length c).2.1.data = s ∧ s.length = length := by
  obtain ⟨hfit, hdata, hstream⟩ := readFixedSize_deliverAll_inv h0 h31 h
  have hboth := List.take_append_drop length c.stream
  rw [← hdata, ← hstream, hrest, hs] at hboth
  have heq := List.append_cancel_right hboth
  refine ⟨heq, ?_⟩
  rw [← heq, hdata, List.length_take]
  exact Nat.min_eq_left hfit

/-- A returned message has consumed a header at least. -/
theorem kHeaderLen_le_of_recvProtocol {b rest : Bytes} {m : Protocol} {c : Conn}
    (h : recvProtocol (readFixedSize deliverAll) { stream := b ++ rest } = (.ok (some m), c))
    (hc : c.stream = rest) : kHeaderLen ≤ b.length := by
  obtain ⟨hlen, hm⟩ := recvProtocol_inv h
  have hconsumed : rest.length ≤ ((b ++ rest).drop kHeaderLen).length := by
    have hclen := congrArg List.length hc
    split at hm
    · rw [← hclen, hm.2]
    · obtain ⟨out, hout, -, hcout⟩ := hm
      rw [← hclen, hcout, ← hout]
      exact length_stream_readFixedSize
  rw [List.length_drop, List.length_append] at hconsumed
  rw [List.length_append] at hlen
  omega

/-! ## what can be forwarded -/

/-- `m` is forwarded as `b`: `encode` writes these bytes and takes no
character past the last one of the payload. -/
structure ForwardedAs (m : Protocol) (b : Bytes) : Prop where
  bytes : ∃ bt, m.encode = .ok bt ∧ bt.toString = b
  within : m.getPayloadLength.toNat ≤ m.payload.length

/-- Without the carry bit and with as much payload as declared, the header and
the payload are written. -/
theorem forwardedAs_of_no_text {m : Protocol} (hcarry : m.carryMsg = false) (hmsg : m.errMsg = [])
    (hlen : m.payload.length = m.payloadLen.toNat) :
    ForwardedAs m (m.encodeHeader ++ m.payload) := by
  have hget : m.getPayloadLength.toNat = m.payload.length := by
    simp [getPayloadLength, hmsg, hlen]
  have herr : m.errBytes = [] := by simp [errBytes, hcarry]
  have hs : cStr m.payload m.getPayloadLength.toNat = .ok m.payload := by
    rw [hget, cStr, if_pos (by omega), List.take_left]
  refine ⟨⟨(FlatBuffer.new.write (m.encodeHeader ++ m.payload)).rewind, ?_, ?_⟩, Nat.le_of_eq hget⟩
  · rw [encode_eq, hs, herr]
    rfl
  · rw [FlatBuffer.toString_rewind, FlatBuffer.data_new_write]

/-- With less text and payload than declared, `encode` goes past the end. -/
theorem not_forwardedAs_of_lt {m : Protocol} {b : Bytes}
    (h : m.errMsg.length + m.payload.length < m.payloadLen.toNat) : ¬ ForwardedAs m b := by
  intro hf
  have hwithin := hf.within
  have hlt := m.payloadLen.isLt
  rw [getPayloadLength, BitVec.toNat_sub, BitVec.toNat_ofNat] at hwithin
  omega

/-- An empty body with the carry bit set gets the length of an empty text. -/
theorem not_forwardedAs_of_empty {m : Protocol} {b : Bytes} (hcarry : m.carryMsg = true)
    (hb : b.length = kHeaderLen) : ¬ ForwardedAs m b := by
  rintro ⟨⟨bt, hencode, hbytes⟩, -⟩
  rw [encode_eq] at hencode
  cases hs : cStr m.payload m.getPayloadLength.toNat with
  | error e => rw [hs] at hencode; cases hencode
  | ok s =>
      rw [hs] at hencode
      cases hencode
      have hvint := length_writeUint64_pos (BitVec.ofNat 64 m.errMsg.length)
      have hlen := congrArg List.length hbytes
      rw [FlatBuffer.toString_rewind, FlatBuffer.data_new_write, hb, List.length_append,
        length_encodeHeader, errBytes, if_pos hcarry, writeStringVint] at hlen
      simp only [List.length_append] at hlen
      omega

omit [Machine] in
/-- A declared length that does not fit an `int` is only received when it does
not fit 32 bits either, and then with a smaller body. -/
theorem length_readFixedSize {cut : Nat → Int} {length : Nat} {c : Conn} (h31 : 2 ^ 31 ≤ length)
    (h : 0 < (readFixedSize cut .new length c).1) :
    (readFixedSize cut .new length c).2.1.data.length < length := by
  rw [readFixedSize] at h ⊢
  by_cases hpos : toInt length ≤ 0
  · rw [readLoop_of_nonpos hpos] at h
    simp only at h
    omega
  · have hlt := toInt_lt length
    have hdata : (readLoop cut length (toInt length).toNat (toInt length) .new c).2.1.data.length <
        0 + (toInt length).toNat + 2 ^ 31 := length_readLoop rfl
    have h32 : 2 ^ 32 ≤ length := by
      by_contra hn
      rw [toInt, Int.bmod_def, Int.emod_eq_of_lt (by omega) (by omega)] at hpos
      omega
    omega

/-- A message without a body. -/
theorem forwardedAs_headerOf_iff {b : Bytes} (hb : b.length = kHeaderLen)
    (h0 : (headerOf b).payloadLen = 0) :
    ForwardedAs (headerOf b) b ↔ (headerOf b).carryMsg = false := by
  constructor
  · intro hf
    by_contra hcarry
    exact not_forwardedAs_of_empty (by simpa using hcarry) hb hf
  · intro hcarry
    have hf := forwardedAs_of_no_text hcarry rfl (by rw [h0]; rfl)
    have hbytes : (headerOf b).encodeHeader ++ (headerOf b).payload = b := by
      rw [encodeHeader_headerOf (Nat.le_of_eq hb.symm), List.take_of_length_le (Nat.le_of_eq hb)]
      exact List.append_nil b
    rwa [hbytes] at hf

/-- A message whose body is as long as declared. -/
theorem forwardedAs_recvBody_iff {p m : Protocol} {n : Int} {bt : FlatBuffer Byte}
    (hmsg : p.errMsg = []) (hbody : recvBody p n bt = .ok (some m))
    (hlen : bt.data.length = p.payloadLen.toNat) :
    ForwardedAs m (p.encodeHeader ++ bt.data) ↔ p.carryMsg = false := by
  obtain ⟨hpaylen, hcarry, hheader, hplain, htext⟩ := recvBody_spec hmsg hbody
  constructor
  · intro hf
    by_contra hc
    have hlt := htext (by simpa using hc)
    exact not_forwardedAs_of_lt (by rw [hpaylen]; omega) hf
  · intro hc
    obtain ⟨herr, hpayload⟩ := hplain hc
    have hf := forwardedAs_of_no_text (hcarry.trans hc) herr (by rw [hpayload, hpaylen, hlen])
    rwa [hheader, hpayload] at hf

/-- A message whose body is shorter than declared. -/
theorem not_forwardedAs_recvBody {p m : Protocol} {n : Int} {bt : FlatBuffer Byte} {b : Bytes}
    (hmsg : p.errMsg = []) (hbody : recvBody p n bt = .ok (some m))
    (hlen : bt.data.length < p.payloadLen.toNat) : ¬ ForwardedAs m b := by
  obtain ⟨hpaylen, -, -, hplain, htext⟩ := recvBody_spec hmsg hbody
  apply not_forwardedAs_of_lt
  rw [hpaylen]
  by_cases hcarry : p.carryMsg = true
  · have := htext hcarry
    omega
  · obtain ⟨herr, hpayload⟩ := hplain (by simpa using hcarry)
    rw [herr, hpayload, List.length_nil]
    omega

/-- **Forwarding**: a received message encodes to the bytes it came in as,
within its payload, exactly when these have the carry bit clear and declare a
length that fits an `int`. -/
theorem forwardedAs_iff {b rest : Bytes} {m : Protocol} {c : Conn}
    (h : recvProtocol (readFixedSize deliverAll) { stream := b ++ rest } = (.ok (some m), c))
    (hc : c.stream = rest) :
    ForwardedAs m b ↔
      (headerOf b).carryMsg = false ∧ (headerOf b).payloadLen.toNat < 2 ^ 31 := by
  have hb := kHeaderLen_le_of_recvProtocol h hc
  obtain ⟨-, hm⟩ := recvProtocol_inv h
  have hdrop : (b ++ rest).drop kHeaderLen = b.drop kHeaderLen ++ rest :=
    List.drop_append_of_le_length hb
  have hsplit : (headerOf b).encodeHeader ++ b.drop kHeaderLen = b := by
    rw [encodeHeader_headerOf hb, List.take_append_drop]
  rw [headerOf_append hb, hdrop] at hm
  by_cases h0 : (headerOf b).payloadLen = 0
  · rw [if_pos h0] at hm
    obtain ⟨rfl, hstream⟩ := hm
    have hnil : b.drop kHeaderLen = [] := by
      rw [hc] at hstream
      exact List.append_left_eq_self.mp hstream.symm
    have hblen : b.length = kHeaderLen := Nat.le_antisymm (List.drop_eq_nil_iff.mp hnil) hb
    simp [forwardedAs_headerOf_iff hblen h0, h0]
  · rw [if_neg h0] at hm
    obtain ⟨out, hout, hbody, hcout⟩ := hm
    have hpos : 0 < out.1 := by
      by_contra hn
      rw [recvBody, if_pos (by omega)] at hbody
      cases hbody
    by_cases h31 : (headerOf b).payloadLen.toNat < 2 ^ 31
    · have hL : 0 < (headerOf b).payloadLen.toNat :=
        Nat.pos_of_ne_zero fun hzero => h0 (BitVec.eq_of_toNat_eq hzero)
      subst hout
      obtain ⟨hdata, hlen⟩ := data_readFixedSize_deliverAll hL h31 hpos rfl (hcout ▸ hc)
      have hiff := forwardedAs_recvBody_iff rfl hbody (by rw [hdata, hlen])
      rw [hdata, hsplit] at hiff
      rw [hiff]
      exact (and_iff_left h31).symm
    · subst hout
      exact iff_of_false
        (not_forwardedAs_recvBody rfl hbody (length_readFixedSize (Nat.le_of_not_lt h31) hpos))
        fun hand => h31 hand.2

end

/-- A success with a payload of two bytes, another byte following it. -/
theorem forwardedAs_iff_success :
    letI := x86_64
    ForwardedAs (.createSuccess .kRpcMethodResponse [1, 2] 5)
        ([0xfc, 0x10, 1, 2] ++ [0, 0, 0, 0, 0, 0, 0, 5] ++ [0, 0, 0, 0, 0, 0, 0, 2] ++ [1, 2]) ↔
      (headerOf ([0xfc, 0x10, 1, 2] ++ [0, 0, 0, 0, 0, 0, 0, 5] ++ [0, 0, 0, 0, 0, 0, 0, 2] ++
        [1, 2])).carryMsg = false ∧
      (headerOf ([0xfc, 0x10, 1, 2] ++ [0, 0, 0, 0, 0, 0, 0, 5] ++ [0, 0, 0, 0, 0, 0, 0, 2] ++
        [1, 2])).payloadLen.toNat < 2 ^ 31 :=
  @forwardedAs_iff x86_64
    ([0xfc, 0x10, 1, 2] ++ [0, 0, 0, 0, 0, 0, 0, 5] ++ [0, 0, 0, 0, 0, 0, 0, 2] ++ [1, 2]) [9] _
    ⟨[9], [⟨2, 2⟩, ⟨20, 20⟩]⟩ (by decide +kernel) rfl

/-- An unknown method's answer with the text "no" and the payload "x": its
encoding has one byte too many, the zero after the payload. -/
theorem received_not_forwardedAs :
    letI := x86_64
    ∃ b m c, recvProtocol (readFixedSize deliverAll) { stream := b } = (.ok (some m), c) ∧
      c.stream = [] ∧ ¬ ForwardedAs m b := by
  refine ⟨[0xfc, 0x10, 1, 5] ++ [0, 0, 0, 0, 0, 0, 0, 5] ++ [0, 0, 0, 0, 0, 0, 0, 4] ++
      [2, 110, 111, 120],
    { carryMsg := true
      type := .kRpcMethodResponse
      errCode := .kRpcNoMethod
      seq := 5
      payloadLen := 4
      errMsg := [110, 111]
      payload := [120] }, ⟨[], [⟨4, 4⟩, ⟨20, 20⟩]⟩, ?_, rfl, ?_⟩
  · decide +kernel
  · exact fun hf => absurd (@ForwardedAs.within x86_64 _ _ hf) (by decide)

end XzmjxRpc
