import XzmjxRpc.Rpc.Session.RoundTrip

/-!
# XzmjxRpc.Rpc.Session.Sequence

A stream of messages.  The encodings of any number of messages are sent one
after the other; as many `recvProtocol` calls give the messages back, in
order, and the stream stands after the last one.

The messages are those that carry no error text: a success made by
`Create(type, content, id)`, or a heartbeat.
-/

namespace XzmjxRpc

open Protocol

/-- A call of `Create(type, content, id)` or `HeartbeatProtocol()`. -/
inductive Outgoing where
  | create (type : MsgType) (content : { s : Bytes // s.length < 2 ^ 31 }) (id : BitVec 64)
  | heartbeat

/-- The message it makes. -/
def Outgoing.msg : Outgoing → Protocol
  | create type content id => .createSuccess type content.1 id
  | heartbeat => .heartbeat

/-- The members of a message without error text. -/
theorem Outgoing.msg_fields (o : Outgoing) :
    o.msg.errCode = .kRpcSuccess ∧ o.msg.errMsg = [] ∧
      o.msg.getPayloadLength.toNat = o.msg.payload.length := by
  cases o with
  | create type content id =>
      have hlt := content.2
      simp [msg, createSuccess, create_eq, getPayloadLength]
      omega
  | heartbeat => simp [msg, Protocol.heartbeat, getPayloadLength]

section
variable [Machine]

/-- The bytes of the messages, one encoding after the other. -/
def encodeAll : List Protocol → Except Fault Bytes
  | [] => .ok []
  | p :: ps => do
      let bt ← p.encode
      let bs ← encodeAll ps
      pure (bt.toString ++ bs)

/-- One message at the front of the stream. -/
theorem Outgoing.recvProtocol_encode (o : Outgoing) :
    ∃ bt, o.msg.encode = .ok bt ∧ ∀ rest rounds, ∃ c,
      recvProtocol (readFixedSize deliverAll) ⟨bt.toString ++ rest, rounds⟩ =
        (.ok (some o.msg), c) ∧ c.stream = rest := by
  have hcreate : ∃ type content id, content.length < 2 ^ 31 ∧
      o.msg = Protocol.create type { code := .kRpcSuccess } content id := by
    cases o with
    | create type content id => exact ⟨type, content.1, id, content.2, rfl⟩
    | heartbeat => exact ⟨.kRpcHeartbeat, [], 0, by decide, by rw [create_eq]; rfl⟩
  obtain ⟨type, content, id, hlen, hmsg⟩ := hcreate
  have hnil : ({ code := .kRpcSuccess } : Context).msg = [] := rfl
  obtain ⟨bt, hencode, hbytes⟩ := encode_create_of_msg_nil type id hlen hnil
  rw [hmsg]
  refine ⟨bt, hencode, ?_⟩
  intro rest rounds
  rw [hbytes, List.append_assoc]
  exact recvProtocol_create_of_msg_nil type id (by decide) hlen rfl rest rounds

/-- The messages at the front of the stream, by induction on their number:
each call leaves the stream where the next message starts. -/
theorem recvMany_encodeAll (os : List Outgoing) :
    ∃ bs, encodeAll (os.map Outgoing.msg) = .ok bs ∧ ∀ rest rounds, ∃ c,
      recvMany (readFixedSize deliverAll) os.length ⟨bs ++ rest, rounds⟩ =
        (os.map fun o => .ok (some o.msg), c) ∧ c.stream = rest := by
  induction os with
  | nil => exact ⟨[], rfl, fun rest rounds => ⟨⟨rest, rounds⟩, rfl, rfl⟩⟩
  | cons o os ih =>
      obtain ⟨bt, hencode, hrecv⟩ := o.recvProtocol_encode
      obtain ⟨bs, hrest, hmany⟩ := ih
      refine ⟨bt.toString ++ bs, ?_, ?_⟩
      · simp only [List.map_cons, encodeAll, hencode, hrest, bind, Except.bind, pure, Except.pure]
      · intro rest rounds
        obtain ⟨c, hone, hstream⟩ := hrecv (bs ++ rest) rounds
        obtain ⟨c', hall, hstream'⟩ := hmany rest c.rounds
        refine ⟨c', ?_, hstream'⟩
        have hc : (⟨bs ++ rest, c.rounds⟩ : Conn) = c := by rw [← hstream]
        rw [hc] at hall
        rw [List.append_assoc, List.length_cons, recvMany, hone]
        simp only [hall, List.map_cons]

/-- **A stream of messages**: sent one after the other, they are received in
order and to the last byte, each as a success without error text whose
declared length is that of its payload. -/
theorem recvMany_of_encodeAll (os : List Outgoing) :
    ∃ bs, encodeAll (os.map Outgoing.msg) = .ok bs ∧
      ∃ c, recvMany (readFixedSize deliverAll) os.length { stream := bs } =
          (os.map fun o => .ok (some o.msg), c) ∧
        c.stream = [] ∧
        ∀ o ∈ os, o.msg.errCode = .kRpcSuccess ∧ o.msg.errMsg = [] ∧
          o.msg.getPayloadLength.toNat = o.msg.payload.length := by
  obtain ⟨bs, hbs, hrecv⟩ := recvMany_encodeAll os
  obtain ⟨c, hall, hstream⟩ := hrecv [] []
  rw [List.append_nil] at hall
  exact ⟨bs, hbs, c, hall, hstream, fun o _ => o.msg_fields⟩

end

/-- A method call, then a heartbeat, then an empty registration. -/
example :
    letI := x86_64
    (encodeAll ([.create .kRpcMethodRequest ⟨[1, 2], by decide⟩ 3, .heartbeat,
      .create .kRpcServiceRegisterRequest ⟨[], by decide⟩ 0].map Outgoing.msg)).map List.length =
        .ok 62 := by
  decide +kernel

end XzmjxRpc
