import XzmjxRpc.Utils.Codec

/-!
# XzmjxRpc.Rpc.Protocol

The messages on the wire (`rpc/protocol.h`, `rpc/protocol.cpp`,
`rpc/context.h`): a header of 20 bytes

```
magic:1  version:1  type:1  err_code:7 carry_msg:1  seq:8  payload_len:8
```

then, with the carry bit set, the error text as a string with a varint
length, then the payload.  `setErrMsg` is meant to count the text into
`payload_len`, which both `encode` and `getPayloadLength` subtract it from;
what it adds to instead is `m_payload`.
-/

namespace XzmjxRpc

/-- `Protocol::ErrCode`, an enumeration over `uint8_t`: a byte off the wire is
cast to it unchecked. -/
structure ErrCode where
  raw : Byte
  deriving DecidableEq, Repr

namespace ErrCode

def kRpcDefault : ErrCode := ⟨0⟩
def kRpcSuccess : ErrCode := ⟨1⟩
def kRpcNoMethod : ErrCode := ⟨2⟩
def kRpcParamNotMatch : ErrCode := ⟨3⟩
def kRpcMethodCallException : ErrCode := ⟨4⟩
def kRpcRetTypeNotMatch : ErrCode := ⟨8⟩
def kRpcProtocolFormatError : ErrCode := ⟨9⟩

end ErrCode

/-- `Protocol::Type`, an enumeration over `uint8_t`. -/
structure MsgType where
  raw : Byte
  deriving DecidableEq, Repr

namespace MsgType

def kRpcMethodRequest : MsgType := ⟨0⟩
def kRpcMethodResponse : MsgType := ⟨1⟩
def kRpcServiceDiscoverRequest : MsgType := ⟨2⟩
def kRpcServiceDiscoverResponse : MsgType := ⟨3⟩
def kRpcServiceProvider : MsgType := ⟨4⟩
def kRpcServiceRegisterRequest : MsgType := ⟨5⟩
def kRpcServiceRegisterResponse : MsgType := ⟨6⟩
def kRpcHeartbeat : MsgType := ⟨7⟩

end MsgType

/-- `Context`: the outcome of a call. -/
structure Context where
  code : ErrCode := ErrCode.kRpcDefault
  msg : Bytes := []
  deriving DecidableEq, Repr

/-- `Protocol`, with the members of a fresh one. -/
structure Protocol where
  carryMsg : Bool := false
  magic : Byte := 0xfc
  version : Byte := 0x10
  type : MsgType := ⟨0⟩
  errCode : ErrCode := ErrCode.kRpcSuccess
  seq : BitVec 64 := 0
  payloadLen : BitVec 64 := 0
  errMsg : Bytes := []
  payload : Bytes := []
  deriving DecidableEq, Repr

namespace Protocol

def kDefaultVersion : Byte := 0x10
def kMagic : Byte := 0xfc
def kHeaderLen : Nat := 20

/-! ## members -/

/-- `setErrMsg(msg)`: `m_payload += msg.size()` appends one character. -/
def setErrMsg (p : Protocol) (msg : Bytes) : Protocol :=
  if msg = [] then p
  else
    { p with
      carryMsg := true
      payload := p.payload ++ [BitVec.ofNat 8 msg.length]
      errMsg := msg }

/-- `setPayloadLength(len)` adds to the length. -/
def setPayloadLength (p : Protocol) (len : Nat) : Protocol :=
  { p with payloadLen := p.payloadLen + BitVec.ofNat 64 len }

/-- `getPayloadLength()`. -/
def getPayloadLength (p : Protocol) : BitVec 64 := p.payloadLen - BitVec.ofNat 64 p.errMsg.length

/-- `Create(type, ctx, content, id)`. -/
def create (type : MsgType) (ctx : Context) (content : Bytes) (id : BitVec 64) : Protocol :=
  let p : Protocol := {}
  let p := { p with type := type, errCode := ctx.code }
  let p := (p.setErrMsg ctx.msg).setPayloadLength content.length
  { p with payload := content, seq := id }

/-- `Create(type, content, id)`. -/
def createSuccess (type : MsgType) (content : Bytes) (id : BitVec 64) : Protocol :=
  create type { code := .kRpcSuccess } content id

/-- `HeartbeatProtocol()`. -/
def heartbeat : Protocol := { type := .kRpcHeartbeat }

section
variable (type : MsgType) (ctx : Context) (content : Bytes) (id : BitVec 64)

/-- What `Create` makes: the length counts the content alone. -/
theorem create_eq :
    create type ctx content id =
      { carryMsg := decide (ctx.msg ≠ [])
        type := type
        errCode := ctx.code
        seq := id
        payloadLen := BitVec.ofNat 64 content.length
        errMsg := ctx.msg
        payload := content } := by
  obtain ⟨code, msg⟩ := ctx
  cases msg <;> simp [create, setErrMsg, setPayloadLength]

theorem type_create : (create type ctx content id).type = type := by rw [create_eq]

theorem errCode_create : (create type ctx content id).errCode = ctx.code := by rw [create_eq]

theorem seq_create : (create type ctx content id).seq = id := by rw [create_eq]

theorem errMsg_create : (create type ctx content id).errMsg = ctx.msg := by rw [create_eq]

theorem payload_create : (create type ctx content id).payload = content := by rw [create_eq]

theorem toNat_payloadLen_create (h : content.length < 2 ^ 64) :
    (create type ctx content id).payloadLen.toNat = content.length := by
  rw [create_eq]
  exact Nat.mod_eq_of_lt h

end

/-! ## encoding -/

/-- The `n` characters from `s.c_str()` on: those of `s` and the terminating
zero may be read. -/
def cStr (s : Bytes) (n : Nat) : Except Fault Bytes :=
  if n ≤ s.length + 1 then .ok ((s ++ [0]).take n) else .error .overrun

/- The fourth header byte holds the code above the carry bit. -/

theorem errCode_shift {c : Byte} (h : c.toNat < 128) (b : Bool) :
    ((c <<< 1) ||| (if b then 1 else 0)) >>> 1 = c := by
  have hall : ∀ c : Byte, c.toNat < 128 → ∀ b : Bool,
      ((c <<< 1) ||| (if b then 1 else 0)) >>> 1 = c := by decide +kernel
  exact hall c h b

theorem carry_bit (c : Byte) (b : Bool) :
    decide (((c <<< 1) ||| (if b then 1 else 0)) &&& 1 ≠ 0) = b := by
  have hall : ∀ c : Byte, ∀ b : Bool,
      decide (((c <<< 1) ||| (if b then 1 else 0)) &&& 1 ≠ 0) = b := by decide +kernel
  exact hall c b

section
variable [Machine]

/-- `encodeHeader(bt)`. -/
def encodeHeader (p : Protocol) : Bytes :=
  writeFuint8 p.magic ++ writeFuint8 p.version ++ writeFuint8 p.type.raw ++
    writeFuint8 ((p.errCode.raw <<< 1) ||| (if p.carryMsg then 1 else 0)) ++
    writeFuint64 .big p.seq ++ writeFuint64 .big p.payloadLen

/-- `decodeHeader(bt)`: the header fields of `p` are overwritten. -/
def decodeHeader (p : Protocol) : Decoder Protocol := do
  let magic ← readFint8
  let version ← readFint8
  let type ← readFint8
  let temp ← readFint8
  let seq ← readFint64 .big
  let payloadLen ← readFint64 .big
  pure { p with
    magic := magic
    version := version
    type := ⟨type⟩
    errCode := ⟨temp >>> 1⟩
    carryMsg := decide (temp &&& 1 ≠ 0)
    seq := seq
    payloadLen := payloadLen }

/-- `encode()`. -/
def encode (p : Protocol) : Except Fault (FlatBuffer Byte) := do
  let bt := FlatBuffer.new.write p.encodeHeader
  let bt := if p.carryMsg then bt.write (writeStringVint p.errMsg) else bt
  let n := (p.payloadLen - BitVec.ofNat 64 p.errMsg.length).toNat
  if n ≠ 0 then
    let s ← cStr p.payload n
    pure (bt.write s).rewind
  else pure bt.rewind

/-! ## what encode writes -/

theorem length_encodeHeader (p : Protocol) : p.encodeHeader.length = kHeaderLen := by
  simp [encodeHeader, writeFuint8, writeFuint64, writeFixed_eq, kHeaderLen]

/-- The error text on the wire. -/
def errBytes (p : Protocol) : Bytes := if p.carryMsg then writeStringVint p.errMsg else []

/-- `encode` writes the header, the error text and the characters of the
payload that the declared length leaves, and fails when these overrun it. -/
theorem encode_eq (p : Protocol) :
    p.encode = (cStr p.payload p.getPayloadLength.toNat).map fun s =>
      (FlatBuffer.new.write (p.encodeHeader ++ (p.errBytes ++ s))).rewind := by
  have hbt : (if p.carryMsg then (FlatBuffer.new.write p.encodeHeader).write
      (writeStringVint p.errMsg) else FlatBuffer.new.write p.encodeHeader) =
      FlatBuffer.new.write (p.encodeHeader ++ p.errBytes) := by
    unfold errBytes
    split
    · rw [FlatBuffer.write_write]
    · rw [List.append_nil]
  unfold encode
  simp only [hbt]
  rw [getPayloadLength]
  generalize (p.payloadLen - BitVec.ofNat 64 p.errMsg.length).toNat = n
  by_cases hn : n = 0
  · subst hn
    simp [cStr, Except.map, pure, Except.pure]
  · rw [if_pos hn]
    cases cStr p.payload n with
    | error e => rfl
    | ok s =>
        simp only [Except.map, bind, Except.bind, pure, Except.pure, FlatBuffer.write_write,
          List.append_assoc]

omit [Machine] in
/-- So many characters may be read exactly when they end with the terminating zero. -/
theorem exists_cStr_iff {s : Bytes} {n : Nat} : (∃ cs, cStr s n = .ok cs) ↔ n ≤ s.length + 1 := by
  unfold cStr
  split <;> simp [*]

/-- Encoding goes through when the payload has the characters that are left. -/
theorem exists_encode_iff {p : Protocol} :
    (∃ bt, p.encode = .ok bt) ↔ p.getPayloadLength.toNat ≤ p.payload.length + 1 := by
  rw [encode_eq, ← exists_cStr_iff]
  cases cStr p.payload p.getPayloadLength.toNat <;> simp [Except.map]

/-- **A message of `Create` can be encoded** exactly when its error text is not
longer than its content: what is left of a shorter one wraps around. -/
theorem exists_encode_create_iff {type : MsgType} {ctx : Context} {content : Bytes}
    {id : BitVec 64} (h : ctx.msg.length < 2 ^ 64 - 1) :
    (∃ bt, (create type ctx content id).encode = .ok bt) ↔ ctx.msg.length ≤ content.length := by
  rw [exists_encode_iff, getPayloadLength, errMsg_create, payload_create, create_eq,
    BitVec.toNat_sub, BitVec.toNat_ofNat, BitVec.toNat_ofNat]
  constructor
  · intro hle
    by_contra hlt
    have hcontent : content.length % 2 ^ 64 = content.length := Nat.mod_eq_of_lt (by omega)
    have hmsg : ctx.msg.length % 2 ^ 64 = ctx.msg.length := Nat.mod_eq_of_lt (by omega)
    rw [hcontent, hmsg] at hle
    omega
  · intro hle
    -- whatever wraps around, no more is left than the difference
    omega

/-- `encode` ends with `setPosition(0)`. -/
theorem position_encode {p : Protocol} {bt : FlatBuffer Byte} (h : p.encode = .ok bt) :
    bt.position = 0 := by
  rw [encode_eq] at h
  cases hs : cStr p.payload p.getPayloadLength.toNat with
  | error e => rw [hs] at h; cases h
  | ok s =>
      rw [hs] at h
      cases h
      rfl

/-! ## reading a header back -/

/-- **Header round trip**: an error code below 128 leaves room for the carry bit. -/
theorem reads_decodeHeader {p : Protocol} (h : p.errCode.raw.toNat < 128) (q : Protocol) :
    Reader.Reads (decodeHeader q) p.encodeHeader
      { p with errMsg := q.errMsg, payload := q.payload } := by
  unfold decodeHeader encodeHeader
  simp only [List.append_assoc]
  apply (reads_readFint8 _).bind
  apply (reads_readFint8 _).bind
  apply (reads_readFint8 _).bind
  apply (reads_readFint8 _).bind
  apply (reads_readFixed (n := 8) .big _).bind
  apply (reads_readFixed (n := 8) .big _).bind_nil
  rw [errCode_shift h, carry_bit]
  exact Reader.Reads.pure _

end

end Protocol

end XzmjxRpc
