import XzmjxRpc.Rpc.Calls.Matching
import XzmjxRpc.Rpc.Server.Chunked
import XzmjxRpc.Rpc.Server.Verdict
import XzmjxRpc.Rpc.Wire.Chunked

/-!
# XzmjxRpc.Rpc.Wire.Calls

Concurrent calls again, with what the program has and nothing more: the
connection carries bytes, `RpcSession::sendProtocol` puts encodings on it and
`RpcSession::recvProtocol` reads them off, in whatever pieces the transport
delivers them, and the heartbeats of the client's timer and their answers go
over the same connection as the calls.

Both sides have the chunked byte arrays of `XzmjxRpc.Rpc.Wire.Chunked` and
`XzmjxRpc.Rpc.Server.Chunked`.  A message longer than a node is not sent: the
process ends there, so that the system takes no such step.

`XzmjxRpc.Rpc.Calls` is the abstract model of this system: there a connection
is a queue of messages that know which call they belong to, and nobody sends a
heartbeat.
-/

namespace XzmjxRpc
namespace Wire

/-- How `call_internal` gets past its wait. -/
inductive Outcome where
  /-- `recv_chan >> rsp`. -/
  | response (rsp : Protocol)
  /-- `TimedPop` returned false. -/
  | timeout

/-- Where a caller is in `call_internal`. -/
inductive Phase where
  /-- It has an id, and its channel is in the map. -/
  | registered
  /-- Its request is queued; it waits on its channel. -/
  | waiting
  /-- It is past the wait, its channel still in the map. -/
  | woken (out : Outcome)
  /-- It has erased its id. -/
  | ended (out : Outcome)

/-- The local variables of a `call_internal`. -/
structure Call where
  id : BitVec 64
  req : Protocol
  recvChan : List Protocol
  phase : Phase

/-- Client, server and the bytes between them. -/
structure State where
  calls : Nat → Option Call
  begun : Nat
  /-- `m_seq_id`. -/
  seqId : BitVec 64
  /-- `m_outstanding_call`: the call whose channel an id is mapped to. -/
  outstanding : BitVec 64 → Option Nat
  /-- `m_chan`. -/
  sendQueue : List Protocol
  toServer : Bytes
  /-- The messages whose coroutines have not finished. -/
  handling : List Protocol
  toClient : Bytes

/-- A fresh connection. -/
def init : State where
  calls _ := none
  begun := 0
  seqId := 0
  outstanding _ := none
  sendQueue := []
  toServer := []
  handling := []
  toClient := []

namespace State

/-- Call number `c` becomes `k`. -/
def setCall (s : State) (c : Nat) (k : Call) : State :=
  { s with calls := Function.update s.calls c (some k) }

/-- The call that takes the next id, and its request. -/
def newCall (s : State) (payload : Bytes) : Call where
  id := s.seqId
  req := .createSuccess .kRpcMethodRequest payload s.seqId
  recvChan := []
  phase := .registered

/-- The first locked section of `call_internal`. -/
def register (s : State) (payload : Bytes) : State :=
  { s with
    calls := Function.update s.calls s.begun (some (s.newCall payload))
    begun := s.begun + 1
    seqId := s.seqId + 1
    outstanding :=
      if s.outstanding s.seqId = none then
        Function.update s.outstanding s.seqId (some s.begun)
      else s.outstanding }

/-- `m_outstanding_call[id] << msg` for the call that the id is mapped to. -/
def push (s : State) (c : Nat) (msg : Protocol) : State :=
  match s.calls c with
  | none => s
  | some k => s.setCall c { k with recvChan := k.recvChan ++ [msg] }

/-- `handleMethodResponse(msg)`. -/
def handleMethodResponse (s : State) (msg : Protocol) : State :=
  match s.outstanding msg.seq with
  | none => s
  | some c => s.push c msg

/-- One round of `handleRecv`; what a heartbeat sets is the flag of
`XzmjxRpc.Rpc.Heartbeat`. -/
def handleRecv (s : State) (msg : Protocol) : State :=
  if msg.type = .kRpcHeartbeat then s
  else if msg.type = .kRpcMethodResponse then s.handleMethodResponse msg
  else s

end State

section
variable [Machine]

/-- What the coroutine that `RpcServer::handleClient` starts for a message
answers, if anything. -/
def respond (services : Services) (req : Protocol) : Except Fault (Option Protocol) :=
  if req.type = .kRpcMethodRequest then
    (handleMethodCallOn Send.defaultBaseSize services req).map some
  else if req.type = .kRpcHeartbeat then .ok (some .heartbeat)
  else .ok none

/-- What `sendProtocol` puts on the wire; `write` uses a null node for a message
that is longer than one. -/
def sendProtocol (m : Protocol) : Except Fault Bytes := do
  let bt ← m.encode
  if bt.data.length ≤ Send.defaultBaseSize then .ok bt.toString else .error .nullNode

/-- What it puts there for an answer. -/
def sendAnswer : Option Protocol → Except Fault Bytes
  | none => .ok []
  | some rsp => sendProtocol rsp

/-- `recvProtocol` on the bytes of a connection, which arrive as the transport
says. -/
def recv (arrive : Nat → Arrival) (stream : Bytes) : Except Fault (Option Protocol) × Conn :=
  recvProtocolOn Send.defaultBaseSize arrive { stream := stream }

end

/-- What can happen next. -/
inductive Action where
  | begin (payload : Bytes)
  | enqueue (c : Nat)
  /-- The client's timer expires. -/
  | tick
  | send
  | serverRecv (arrive : Nat → Arrival)
  | serverFinish (services : Services) (req : Protocol)
  | clientRecv (arrive : Nat → Arrival)
  | pop (c : Nat)
  | timeout (c : Nat)
  | erase (c : Nat)

/-- One step of the system. -/
inductive Step [Machine] : State → Action → State → Prop
  /-- A caller takes an id and registers its channel. -/
  | begin (s : State) (payload : Bytes) : Step s (.begin payload) (s.register payload)
  /-- `m_chan << req`. -/
  | enqueue {s : State} {c : Nat} {k : Call} (hk : s.calls c = some k)
      (hp : k.phase = .registered) :
      Step s (.enqueue c)
        { s.setCall c { k with phase := .waiting } with sendQueue := s.sendQueue ++ [k.req] }
  /-- The callback of the timer queues a heartbeat, whenever that is. -/
  | tick (s : State) : Step s .tick { s with sendQueue := s.sendQueue ++ [.heartbeat] }
  /-- `handleSend` pops a message and sends it. -/
  | send {s : State} {m : Protocol} {rest : List Protocol} {bytes : Bytes}
      (h : s.sendQueue = m :: rest) (hbytes : sendProtocol m = .ok bytes) :
      Step s .send { s with sendQueue := rest, toServer := s.toServer ++ bytes }
  /-- The server receives a message and starts a coroutine for it. -/
  | serverRecv {s : State} {arrive : Nat → Arrival} {m : Protocol} {c : Conn}
      (h : recv arrive s.toServer = (.ok (some m), c)) :
      Step s (.serverRecv arrive) { s with toServer := c.stream, handling := m :: s.handling }
  /-- Some coroutine finishes and sends its answer. -/
  | serverFinish {s : State} {services : Services} {m : Protocol} {rsp : Option Protocol}
      {bytes : Bytes} (h : m ∈ s.handling) (hrsp : respond services m = .ok rsp)
      (hbytes : sendAnswer rsp = .ok bytes) :
      Step s (.serverFinish services m)
        { s with handling := s.handling.erase m, toClient := s.toClient ++ bytes }
  /-- The client receives a message. -/
  | clientRecv {s : State} {arrive : Nat → Arrival} {m : Protocol} {c : Conn}
      (h : recv arrive s.toClient = (.ok (some m), c)) :
      Step s (.clientRecv arrive) ({ s with toClient := c.stream }.handleRecv m)
  /-- `recv_chan >> rsp`. -/
  | pop {s : State} {c : Nat} {k : Call} {rsp : Protocol} {rest : List Protocol}
      (hk : s.calls c = some k) (hp : k.phase = .waiting) (hc : k.recvChan = rsp :: rest) :
      Step s (.pop c) (s.setCall c { k with recvChan := rest, phase := .woken (.response rsp) })
  /-- `TimedPop` gives up. -/
  | timeout {s : State} {c : Nat} {k : Call} (hk : s.calls c = some k) (hp : k.phase = .waiting) :
      Step s (.timeout c) (s.setCall c { k with phase := .woken .timeout })
  /-- The second locked section: `m_outstanding_call.erase(id)`. -/
  | erase {s : State} {c : Nat} {k : Call} {out : Outcome} (hk : s.calls c = some k)
      (hp : k.phase = .woken out) :
      Step s (.erase c)
        { s.setCall c { k with phase := .ended out } with
          outstanding := Function.update s.outstanding k.id none }

/-- The payloads are shorter than `2 ^ 31`, no receive returns more than its
loop still needs, and no answer carries an error text. -/
def Orderly [Machine] (s : State) : Action → Prop
  | .begin payload => payload.length < 2 ^ 31
  | .serverRecv arrive => (∀ i, 0 < (arrive i).result) ∧ (recv arrive s.toServer).2.Fits
  | .clientRecv arrive => (∀ i, 0 < (arrive i).result) ∧ (recv arrive s.toClient).2.Fits
  | .serverFinish services req =>
      ∀ rsp, handleMethodCall services req = .ok rsp → rsp.errMsg = []
  | _ => True

end Wire
end XzmjxRpc
