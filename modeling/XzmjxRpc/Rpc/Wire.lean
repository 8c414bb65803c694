import XzmjxRpc.Lib.Frames
import XzmjxRpc.Rpc.Send
import XzmjxRpc.Rpc.Session.RoundTrip

/-!
# XzmjxRpc.Rpc.Wire

The messages of a session as a queue on its byte stream.

A message without error text is encoded by `Protocol::encode` and taken off
the stream by `RpcSession::recvProtocol` whole, and while a part of it has not
arrived `recvProtocol` returns no message: the two make a `FrameCodec`
(`wireCodec`).
-/

namespace XzmjxRpc

open Protocol

/-- A message of `Create` without error text, with a code that fits the header
and a length that fits an `int`. -/
def Plain (m : Protocol) : Prop :=
  ∃ type ctx content id, m = Protocol.create type ctx content id ∧ ctx.code.raw.toNat < 128 ∧
    content.length < 2 ^ 31 ∧ ctx.msg = []

theorem plain_createSuccess (type : MsgType) {content : Bytes} (h : content.length < 2 ^ 31)
    (id : BitVec 64) : Plain (.createSuccess type content id) :=
  ⟨type, { code := .kRpcSuccess }, content, id, rfl, by decide, h, rfl⟩

theorem plain_heartbeat : Plain .heartbeat :=
  ⟨.kRpcHeartbeat, { code := .kRpcSuccess }, [], 0, by rw [create_eq]; rfl, by decide, by decide,
    rfl⟩

section
variable [Machine]

/-! ## one message -/

omit [Machine] in
theorem readExact_of_le {length : Nat} {stream : Bytes} (ba : FlatBuffer Byte)
    (h31 : length < 2 ^ 31) (h : length ≤ stream.length) :
    readExact ba length stream =
      ((length : Int), ba.write (stream.take length), stream.drop length) := by
  have hint : toInt length = length := toInt_of_lt (by omega) (by omega)
  rw [readExact, hint]
  exact if_pos (by omega)

omit [Machine] in
theorem readExact_of_lt {length : Nat} {stream : Bytes} (ba : FlatBuffer Byte)
    (h31 : length < 2 ^ 31) (h : stream.length < length) :
    readExact ba length stream = (0, ba.write stream, []) := by
  have hint : toInt length = length := toInt_of_lt (by omega) (by omega)
  rw [readExact, hint]
  exact if_neg (by omega)

omit [Machine] in
/-- The members of a plain message that the receiver looks at. -/
theorem Plain.fields {m : Protocol} (h : Plain m) :
    m.magic = kMagic ∧ m.version = kDefaultVersion ∧ m.errCode.raw.toNat < 128 ∧
      m.errMsg = [] ∧ m.carryMsg = false ∧ m.payloadLen.toNat = m.payload.length ∧
      m.payload.length < 2 ^ 31 := by
  obtain ⟨type, ctx, content, id, rfl, hcode, hlen, hmsg⟩ := h
  have hnat := toNat_payloadLen_create type ctx content id (by omega)
  refine ⟨?_, ?_, ?_, ?_, ?_, ?_, ?_⟩
  · rw [create_eq]; rfl
  · rw [create_eq]; rfl
  · rwa [errCode_create]
  · rw [errMsg_create, hmsg]
  · rw [create_eq]; simp [hmsg]
  · rw [hnat, payload_create]
  · rwa [payload_create]

/-- A plain message is its header and its payload. -/
theorem Plain.encode {m : Protocol} (h : Plain m) :
    ∃ bt, m.encode = .ok bt ∧ bt.toString = m.encodeHeader ++ m.payload := by
  obtain ⟨type, ctx, content, id, rfl, -, hlen, hmsg⟩ := h
  rw [payload_create]
  exact encode_create_of_msg_nil type id hlen hmsg

theorem Plain.encoded {m : Protocol} (h : Plain m) :
    Send.encoded m = m.encodeHeader ++ m.payload := by
  obtain ⟨bt, hencode, hbytes⟩ := h.encode
  rw [Send.encoded, hencode, ← hbytes, FlatBuffer.toString, position_encode hencode, List.drop_zero]

/-- `recvProtocol` from a plain message's header on. -/
theorem Plain.recvProtocol {m : Protocol} (h : Plain m) (body : Bytes) :
    XzmjxRpc.recvProtocol readExact (m.encodeHeader ++ body) =
      if m.payload.length = 0 then (.ok (some m), body)
      else if m.payload.length ≤ body.length then
        (.ok (some { m with payload := body.take m.payload.length }), body.drop m.payload.length)
      else (.ok none, []) := by
  obtain ⟨hmagic, hversion, hcode, herr, hcarry, hlen, h31⟩ := h.fields
  have hhdr := length_encodeHeader m
  obtain ⟨bt, hheader⟩ := recvHeader_encodeHeader hmagic hversion hcode
  have hle : kHeaderLen ≤ (m.encodeHeader ++ body).length := by
    rw [List.length_append, hhdr]
    omega
  have hfirst := readExact_of_le FlatBuffer.new (by decide : kHeaderLen < 2 ^ 31) hle
  rw [List.take_left' hhdr, List.drop_left' hhdr] at hfirst
  rw [XzmjxRpc.recvProtocol, hfirst]
  have hget : (ofHeader m).getPayloadLength = m.payloadLen := BitVec.sub_zero _
  by_cases h0 : m.payload.length = 0
  · have hzero : m.payloadLen = 0 := BitVec.eq_of_toNat_eq (by rw [hlen, h0]; rfl)
    have hm : ofHeader m = m := by
      obtain ⟨carryMsg, magic, version, type, errCode, seq, payloadLen, errMsg, payload⟩ := m
      cases herr
      cases List.eq_nil_of_length_eq_zero h0
      rfl
    rw [recvRest_empty hheader (hget.trans hzero), if_pos h0, hm]
  · have hne : m.payloadLen ≠ 0 := by
      intro hz
      rw [hz] at hlen
      exact h0 hlen.symm
    rw [recvRest_body hheader (by rwa [hget]), if_neg h0, hget, hlen, FlatBuffer.clear_eq]
    by_cases hbody : m.payload.length ≤ body.length
    · rw [if_pos hbody, readExact_of_le _ h31 hbody, recvFinish, recvBody, if_neg (by omega)]
      simp [ofHeader, herr, hcarry]
    · rw [if_neg hbody, readExact_of_lt _ h31 (Nat.not_le.mp hbody), recvFinish, recvBody]
      rfl

theorem recvProtocol_encoded {m : Protocol} (h : Plain m) (rest : Bytes) :
    recvProtocol readExact (Send.encoded m ++ rest) = (.ok (some m), rest) := by
  rw [h.encoded, List.append_assoc, h.recvProtocol]
  by_cases h0 : m.payload.length = 0
  · rw [if_pos h0, List.eq_nil_of_length_eq_zero h0, List.nil_append]
  · rw [if_neg h0, if_pos (by simp), List.take_left, List.drop_left]

/-- A stream that ends inside a header. -/
theorem recvProtocol_short {ts : Bytes} (h : ts.length < kHeaderLen) :
    recvProtocol readExact ts = (.ok none, []) := by
  have hclosed : recvHeader 0 (FlatBuffer.new.write ts) = .ok none := if_pos rfl
  rw [recvProtocol, readExact_of_lt _ (by decide) h, recvRest_none hclosed]

/-- While a part of the message is missing, none is received. -/
theorem recvProtocol_partial {m : Protocol} (h : Plain m) {ts : Bytes}
    (hpre : ts <+: Send.encoded m) (hne : ts ≠ Send.encoded m) :
    recvProtocol readExact ts = (.ok none, []) := by
  rw [h.encoded] at hpre hne
  have hhdr := length_encodeHeader m
  rcases Nat.lt_or_ge ts.length kHeaderLen with hshort | hlong
  · exact recvProtocol_short hshort
  · -- the header is there, and a proper part of the payload
    have hheader : m.encodeHeader <+: ts :=
      List.prefix_of_prefix_length_le (List.prefix_append _ _) hpre (by rw [hhdr]; exact hlong)
    obtain ⟨body, rfl⟩ := hheader
    have hbody : body <+: m.payload := (List.prefix_append_right_inj _).mp hpre
    have hlt : body.length < m.payload.length := by
      rcases Nat.lt_or_ge body.length m.payload.length with hlt | hge
      · exact hlt
      · exact absurd (congrArg (m.encodeHeader ++ ·) (hbody.eq_of_length_le hge)) hne
    rw [h.recvProtocol, if_neg (by omega), if_neg (by omega)]

/-- **Plain messages on the wire**: `encode` and `recvProtocol` frame them. -/
def wireCodec : FrameCodec Protocol Byte (Except Fault (Option Protocol)) where
  Ok := Plain
  encode := Send.encoded
  receive := recvProtocol readExact
  got m := .ok (some m)
  closed := .ok none
  receive_encode _ h rest := recvProtocol_encoded h rest
  receive_partial _ h _ hpre hne := recvProtocol_partial h hpre hne
  receive_nil := recvProtocol_short (by decide)
  got_injective _ _ h := Option.some.inj (Except.ok.inj h)
  got_ne_closed _ h := by cases h

end

end XzmjxRpc
