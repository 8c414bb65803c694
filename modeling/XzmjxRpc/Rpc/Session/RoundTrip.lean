import XzmjxRpc.Rpc.Session

/-!
# XzmjxRpc.Rpc.Session.RoundTrip

What comes out of `recvProtocol` when a message of `Protocol::Create` is
encoded and sent over a transport that delivers everything asked for.

The declared length is the length of the content alone, because `setErrMsg`
does not count the error text into it.  With an error text of `m` bytes and a
content of `c`, `encode` therefore writes only `c - m` characters of the
content, and overruns it for `c < m`; `recvProtocol` takes `c` bytes of a body
that has `c` bytes and the varint of `m`.
-/

namespace XzmjxRpc

open Protocol

/-- A transport that delivers everything asked for, up to the largest `size_t`. -/
def deliverAll : Nat → Int := fun _ => 2 ^ 64

section
variable [Machine]

/-! ## reading from a stream that has enough -/

omit [Machine] in
/-- With enough on the stream, the first receive ends the loop. -/
theorem readFixedSize_deliverAll {length : Nat} {c : Conn} (ba : FlatBuffer Byte)
    (h0 : 0 < length) (h31 : length < 2 ^ 31) (h : length ≤ c.stream.length) :
    readFixedSize deliverAll ba length c =
      ((length : Int), ba.write (c.stream.take length),
        ⟨c.stream.drop length, ⟨length, length⟩ :: c.rounds⟩) := by
  have hint : toInt length = length := toInt_of_lt (by omega) (by omega)
  have hgot : c.got deliverAll length = length := by
    have hall : (deliverAll c.rounds.length).toNat = 2 ^ 64 := rfl
    unfold Conn.got
    rw [hall]
    omega
  obtain ⟨n, rfl⟩ : ∃ n, length = n + 1 := ⟨length - 1, by omega⟩
  rw [readFixedSize, hint, Int.toNat_natCast, readLoop, if_pos (by omega)]
  have hpos : ¬ deliverAll c.rounds.length ≤ 0 := by rw [deliverAll]; omega
  simp only [socketRead, if_neg hpos, hgot, hint]
  rw [if_neg (by omega), Int.toNat_natCast, List.take_take, Nat.min_self, Int.sub_self]
  cases n with
  | zero => rw [readLoop, hint]
  | succ n => rw [readLoop, if_neg (Int.lt_irrefl 0), hint]

/-- The message as its header describes it. -/
def ofHeader (p : Protocol) : Protocol := { p with errMsg := [], payload := [] }

/-- A header is decoded, then dropped when it is not one of ours. -/
theorem recvHeader_eq {p : Protocol} (hcode : p.errCode.raw.toNat < 128) :
    ∃ bt, recvHeader kHeaderLen (FlatBuffer.new.write p.encodeHeader) =
      if p.magic ≠ kMagic then .ok none
      else if p.version ≠ kDefaultVersion then .ok none
      else .ok (some (ofHeader p, bt)) := by
  have hdata : (FlatBuffer.new.write p.encodeHeader).rewind.toString = p.encodeHeader ++ [] := by
    rw [FlatBuffer.toString_rewind, FlatBuffer.data_new_write, List.append_nil]
  obtain ⟨bt, hrun, -, -⟩ := FlatBuffer.run_of_reads (reads_decodeHeader hcode {}) hdata
  refine ⟨bt, ?_⟩
  rw [recvHeader, if_neg (by decide), if_neg (by decide), hrun]
  simp only [ofHeader]

/-- A well-formed header is recognised. -/
theorem recvHeader_encodeHeader {p : Protocol} (hmagic : p.magic = kMagic)
    (hversion : p.version = kDefaultVersion) (hcode : p.errCode.raw.toNat < 128) :
    ∃ bt, recvHeader kHeaderLen (FlatBuffer.new.write p.encodeHeader) =
      .ok (some (ofHeader p, bt)) := by
  obtain ⟨bt, h⟩ := recvHeader_eq hcode
  exact ⟨bt, by rw [h, if_neg (not_not_intro hmagic), if_neg (not_not_intro hversion)]⟩

/-- From a well-formed header and a body that has the declared length, that
many bytes are consumed. -/
theorem recvProtocol_encodeHeader {p : Protocol} (hmagic : p.magic = kMagic)
    (hversion : p.version = kDefaultVersion) (hcode : p.errCode.raw.toNat < 128) {body : Bytes}
    (h31 : p.payloadLen.toNat < 2 ^ 31) (hlen : p.payloadLen.toNat ≤ body.length)
    (rounds : List Round) :
    ∃ c, recvProtocol (readFixedSize deliverAll) ⟨p.encodeHeader ++ body, rounds⟩ =
        (if p.payloadLen = 0 then .ok (some (ofHeader p))
          else recvBody (ofHeader p) p.payloadLen.toNat
            (FlatBuffer.new.write (body.take p.payloadLen.toNat)), c) ∧
      c.stream = body.drop p.payloadLen.toNat := by
  have hhdr := length_encodeHeader p
  obtain ⟨bt, hheader⟩ := recvHeader_encodeHeader hmagic hversion hcode
  have hfirst := readFixedSize_deliverAll (c := ⟨p.encodeHeader ++ body, rounds⟩)
    FlatBuffer.new (by decide : 0 < kHeaderLen) (by decide)
    (by rw [List.length_append, hhdr]; omega)
  rw [List.take_left' hhdr, List.drop_left' hhdr] at hfirst
  rw [recvProtocol, hfirst]
  have hget : (ofHeader p).getPayloadLength = p.payloadLen := BitVec.sub_zero _
  by_cases h0 : p.payloadLen = 0
  · rw [recvRest_empty hheader (hget.trans h0), if_pos h0, h0]
    exact ⟨_, rfl, rfl⟩
  · have hpos : 0 < p.payloadLen.toNat := by
      by_contra hn
      exact h0 (BitVec.eq_of_toNat_eq (show p.payloadLen.toNat = 0 by omega))
    rw [recvRest_body hheader (by rwa [hget]), if_neg h0, hget, FlatBuffer.clear_eq]
    have hsecond := readFixedSize_deliverAll
      (c := ⟨body, ⟨(kHeaderLen : Nat), kHeaderLen⟩ :: rounds⟩) FlatBuffer.new hpos h31 hlen
    rw [hsecond]
    exact ⟨_, rfl, rfl⟩

/-! ## messages of Create -/

/-- The message is encoded, and `recvProtocol` finds the same type, error
code, error text, payload and sequence id in it and stops right after it. -/
def ReceivedAsSent (type : MsgType) (ctx : Context) (content : Bytes) (id : BitVec 64)
    (rest : Bytes) : Prop :=
  ∃ bt, (create type ctx content id).encode = .ok bt ∧
    ∃ msg c, recvProtocol (readFixedSize deliverAll) { stream := bt.toString ++ rest } =
        (.ok (some msg), c) ∧
      c.stream = rest ∧ msg.type = type ∧ msg.errCode = ctx.code ∧ msg.errMsg = ctx.msg ∧
      msg.payload = content ∧ msg.seq = id

variable {type : MsgType} {ctx : Context} {content : Bytes} {id : BitVec 64}

/-- `encode` starts reading past the content when the error text is longer. -/
theorem encode_create_overrun (hcontent : content.length < 2 ^ 31) (hmsg : ctx.msg.length < 2 ^ 31)
    (h : content.length < ctx.msg.length) :
    (create type ctx content id).encode = .error .overrun := by
  have hlen : (create type ctx content id).getPayloadLength.toNat =
      2 ^ 64 - ctx.msg.length + content.length := by
    rw [getPayloadLength, BitVec.toNat_sub, toNat_payloadLen_create _ _ _ _ (by omega),
      errMsg_create, BitVec.toNat_ofNat]
    omega
  rw [encode_eq, hlen, payload_create, cStr, if_neg (by omega)]
  rfl

variable (type id) in
/-- Otherwise it leaves out as many characters as the error text has. -/
theorem encode_create (hcontent : content.length < 2 ^ 31)
    (h : ctx.msg.length ≤ content.length) :
    ∃ bt, (create type ctx content id).encode = .ok bt ∧
      bt.toString = (create type ctx content id).encodeHeader ++
        ((create type ctx content id).errBytes ++
          content.take (content.length - ctx.msg.length)) := by
  have hlen : (create type ctx content id).getPayloadLength.toNat =
      content.length - ctx.msg.length := by
    rw [getPayloadLength, BitVec.toNat_sub, toNat_payloadLen_create _ _ _ _ (by omega),
      errMsg_create, BitVec.toNat_ofNat]
    omega
  rw [encode_eq, hlen, payload_create, cStr, if_pos (by omega),
    List.take_append_of_le_length (by omega)]
  exact ⟨_, rfl, by rw [FlatBuffer.toString_rewind, FlatBuffer.data_new_write]⟩

variable (type id) in
/-- Receiving a message of `Create` consumes as many body bytes as its content has. -/
theorem recvProtocol_create (hcode : ctx.code.raw.toNat < 128)
    (hcontent : content.length < 2 ^ 31) {body : Bytes} (hlen : content.length ≤ body.length)
    (rounds : List Round) :
    ∃ c, recvProtocol (readFixedSize deliverAll)
          ⟨(create type ctx content id).encodeHeader ++ body, rounds⟩ =
        (if (create type ctx content id).payloadLen = 0 then
            .ok (some (ofHeader (create type ctx content id)))
          else recvBody (ofHeader (create type ctx content id)) content.length
            (FlatBuffer.new.write (body.take content.length)), c) ∧
      c.stream = body.drop content.length := by
  have hnat := toNat_payloadLen_create type ctx content id (by omega)
  have hmagic : (create type ctx content id).magic = kMagic := by rw [create_eq]; rfl
  have hversion : (create type ctx content id).version = kDefaultVersion := by rw [create_eq]; rfl
  have hraw : (create type ctx content id).errCode.raw.toNat < 128 := by
    rw [create_eq]
    exact hcode
  have h := recvProtocol_encodeHeader hmagic hversion hraw (by rw [hnat]; exact hcontent)
    (show _ ≤ body.length by rw [hnat]; exact hlen) rounds
  rwa [hnat] at h

variable (type id) in
/-- Without an error text the message comes back whole, whatever follows it. -/
theorem recvProtocol_create_of_msg_nil (hcode : ctx.code.raw.toNat < 128)
    (hcontent : content.length < 2 ^ 31) (hmsg : ctx.msg = []) (rest : Bytes)
    (rounds : List Round) :
    ∃ c, recvProtocol (readFixedSize deliverAll)
          ⟨(create type ctx content id).encodeHeader ++ (content ++ rest), rounds⟩ =
        (.ok (some (create type ctx content id)), c) ∧
      c.stream = rest := by
  have hbody : content.length ≤ (content ++ rest).length := by simp
  obtain ⟨c, hrecv, hstream⟩ := recvProtocol_create type id hcode hcontent hbody rounds
  rw [List.drop_left] at hstream
  rw [List.take_left] at hrecv
  refine ⟨c, ?_, hstream⟩
  rw [hrecv]
  by_cases h0 : content = []
  · rw [create_eq, hmsg, h0]
    rfl
  · have hne : (create type ctx content id).payloadLen ≠ 0 := by
      intro h
      have hnat := toNat_payloadLen_create type ctx content id (by omega)
      rw [h] at hnat
      exact h0 (List.eq_nil_of_length_eq_zero hnat.symm)
    have hpos := List.length_pos_of_ne_nil h0
    have hcarry : (ofHeader (create type ctx content id)).carryMsg = false := by
      simp [create_eq, ofHeader, hmsg]
    rw [if_neg hne, recvBody, if_neg (by omega), hcarry]
    simp [create_eq, ofHeader, hmsg]

variable (type id) in
/-- Without an error text the header and the content are sent. -/
theorem encode_create_of_msg_nil (hcontent : content.length < 2 ^ 31) (hmsg : ctx.msg = []) :
    ∃ bt, (create type ctx content id).encode = .ok bt ∧
      bt.toString = (create type ctx content id).encodeHeader ++ content := by
  obtain ⟨bt, hencode, hbytes⟩ := encode_create type id hcontent
    (show ctx.msg.length ≤ content.length by simp [hmsg])
  have herr : (create type ctx content id).errBytes = [] := by
    simp [create_eq, errBytes, hmsg]
  exact ⟨bt, hencode, by simpa [herr, hmsg] using hbytes⟩

/-- Without an error text the round trip works. -/
theorem receivedAsSent_of_msg_nil (hcode : ctx.code.raw.toNat < 128)
    (hcontent : content.length < 2 ^ 31) (hmsg : ctx.msg = []) (rest : Bytes) :
    ReceivedAsSent type ctx content id rest := by
  obtain ⟨bt, hencode, hbytes⟩ := encode_create_of_msg_nil type id hcontent hmsg
  obtain ⟨c, hrecv, hstream⟩ :=
    recvProtocol_create_of_msg_nil type id hcode hcontent hmsg rest []
  refine ⟨bt, hencode, create type ctx content id, c, ?_, hstream, ?_⟩
  · rw [hbytes, List.append_assoc]
    exact hrecv
  · simp [create_eq]

/-- With one, the message overruns its content or leaves the varint of the
text's length on the stream. -/
theorem msg_nil_of_receivedAsSent (hcode : ctx.code.raw.toNat < 128)
    (hcontent : content.length < 2 ^ 31) (hmsg : ctx.msg.length < 2 ^ 31) {rest : Bytes}
    (h : ReceivedAsSent type ctx content id rest) : ctx.msg = [] := by
  by_contra hne
  obtain ⟨bt, hencode, msg, c, hrecv, hstream, -⟩ := h
  by_cases hlt : content.length < ctx.msg.length
  · rw [encode_create_overrun hcontent hmsg hlt] at hencode
    cases hencode
  · obtain ⟨bt', hencode', hbytes⟩ := encode_create type id hcontent (Nat.le_of_not_lt hlt)
    have hbt : bt' = bt := Except.ok.inj (hencode'.symm.trans hencode)
    subst hbt
    have herr : (create type ctx content id).errBytes = writeStringVint ctx.msg := by
      rw [create_eq, errBytes]
      simp [hne]
    have hvint := length_writeUint64_pos (BitVec.ofNat 64 ctx.msg.length)
    have hbody : ((create type ctx content id).errBytes ++
          content.take (content.length - ctx.msg.length) ++ rest).length =
        (writeUint64 (BitVec.ofNat 64 ctx.msg.length)).length + content.length + rest.length := by
      rw [herr, writeStringVint, List.length_append, List.length_append, List.length_append,
        List.length_take]
      omega
    have hfit : content.length ≤ ((create type ctx content id).errBytes ++
        content.take (content.length - ctx.msg.length) ++ rest).length := by omega
    obtain ⟨c', hrecv', hstream'⟩ := recvProtocol_create type id hcode hcontent hfit []
    rw [hbytes, List.append_assoc, hrecv'] at hrecv
    have hc : c' = c := congrArg Prod.snd hrecv
    have hlen := congrArg List.length (hstream'.symm.trans (by rw [hc, hstream]))
    rw [List.length_drop, hbody] at hlen
    omega

/-- **Receiving what was sent**: a message of `Create` is received as it was
sent, the stream standing right after it, exactly when it carries no error
text. -/
theorem receivedAsSent_iff (hcode : ctx.code.raw.toNat < 128)
    (hcontent : content.length < 2 ^ 31) (hmsg : ctx.msg.length < 2 ^ 31) (rest : Bytes) :
    ReceivedAsSent type ctx content id rest ↔ ctx.msg = [] :=
  ⟨msg_nil_of_receivedAsSent hcode hcontent hmsg,
    fun h => receivedAsSent_of_msg_nil hcode hcontent h rest⟩

end

/-- A success with a payload of two bytes, another byte following. -/
theorem receivedAsSent_iff_success :
    letI := x86_64
    ReceivedAsSent .kRpcMethodResponse { code := .kRpcSuccess } [1, 2] 5 [9] ↔
      ([] : Bytes) = [] :=
  @receivedAsSent_iff x86_64 .kRpcMethodResponse { code := .kRpcSuccess } [1, 2] 5 (by decide)
    (by decide) (by decide) [9]

/-- An unknown method's answer, with a text of two bytes and a payload of three. -/
theorem not_receivedAsSent_no_method :
    letI := x86_64
    ¬ ReceivedAsSent .kRpcMethodResponse { code := .kRpcNoMethod, msg := [110, 111] } [1, 2, 3] 5
      [] := by
  intro h
  have hnil := @msg_nil_of_receivedAsSent x86_64 .kRpcMethodResponse
    { code := .kRpcNoMethod, msg := [110, 111] } [1, 2, 3] 5 (by decide) (by decide) (by decide) _ h
  cases hnil

end XzmjxRpc
