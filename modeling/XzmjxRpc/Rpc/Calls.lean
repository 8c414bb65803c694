import Mathlib.Logic.Function.Basic
import XzmjxRpc.Lib.Run
import XzmjxRpc.Rpc.Server

/-!
# XzmjxRpc.Rpc.Calls

Concurrent calls over one connection: `RpcClient::call_internal`,
`handleSend`, `handleRecv` and `handleMethodResponse` (`rpc/rpc_client.*`)
against the coroutines of `RpcServer::handleClient`, as a step relation.

Calls are numbered in the order in which they take their sequence id.  A
message in flight carries the number of its call (`Tagged`): the program does
not know it, no step looks at it, and it is there to say that a response
belongs to a request.  `answers` and `deliveries` record what the server sent
and what `handleMethodResponse` pushed into which call's channel.

A libgo channel is a FIFO queue and the transport is reliable and ordered.
-/

namespace XzmjxRpc
namespace Calls

/-- A message and the call it belongs to. -/
structure Tagged where
  call : Nat
  msg : Protocol
  deriving DecidableEq

/-- How `call_internal` gets past its wait. -/
inductive Outcome where
  /-- `recv_chan >> rsp`. -/
  | response (r : Tagged)
  /-- `TimedPop` returned false. -/
  | timeout

/-- Where a caller is in `call_internal`. -/
inductive Phase where
  /-- It has an id, and its channel is in the map. -/
  | registered
  /-- Its request is queued; it waits on its channel. -/
  | waiting
  /-- It is past the wait, its channel still in the map. -/
  | woken (out : Outcome)
  /-- It has erased its id. -/
  | ended (out : Outcome)

/-- The caller has not erased its id yet. -/
def Phase.Outstanding : Phase → Prop
  | .ended _ => False
  | _ => True

/-- The local variables of a `call_internal`. -/
structure Call where
  id : BitVec 64
  req : Protocol
  recvChan : List Tagged
  phase : Phase

/-- Client, server and the connection between them. -/
structure State where
  calls : Nat → Option Call
  begun : Nat
  /-- `m_seq_id`. -/
  seqId : BitVec 64
  /-- `m_outstanding_call`: the call whose channel an id is mapped to. -/
  outstanding : BitVec 64 → Option Nat
  /-- `m_chan`. -/
  sendQueue : List Tagged
  toServer : List Tagged
  /-- The requests whose coroutines have not finished. -/
  handling : List Tagged
  toClient : List Tagged
  answers : List Tagged
  deliveries : List (Nat × Tagged)

/-- A fresh connection. -/
def init : State where
  calls _ := none
  begun := 0
  seqId := 0
  outstanding _ := none
  sendQueue := []
  toServer := []
  handling := []
  toClient := []
  answers := []
  deliveries := []

namespace State

/-- Call number `c` becomes `k`. -/
def setCall (s : State) (c : Nat) (k : Call) : State :=
  { s with calls := Function.update s.calls c (some k) }

/-- The call that takes the next id, and its request. -/
def newCall (s : State) (payload : Bytes) : Call where
  id := s.seqId
  req := .createSuccess .kRpcMethodRequest payload s.seqId
  recvChan := []
  phase := .registered

/-- The first locked section of `call_internal`: `id = m_seq_id++;
m_outstanding_call.insert({id, recv_chan})`, which leaves an id that is
already there alone. -/
def register (s : State) (payload : Bytes) : State :=
  { s with
    calls := Function.update s.calls s.begun (some (s.newCall payload))
    begun := s.begun + 1
    seqId := s.seqId + 1
    outstanding :=
      if s.outstanding s.seqId = none then
        Function.update s.outstanding s.seqId (some s.begun)
      else s.outstanding }

/-- `m_outstanding_call[id] << msg` for the call that the id is mapped to. -/
def push (s : State) (c : Nat) (r : Tagged) : State :=
  match s.calls c with
  | none => s
  | some k =>
      { s.setCall c { k with recvChan := k.recvChan ++ [r] } with
        deliveries := (c, r) :: s.deliveries }

/-- `handleMethodResponse(msg)`. -/
def handleMethodResponse (s : State) (r : Tagged) : State :=
  match s.outstanding r.msg.seq with
  | none => s
  | some c => s.push c r

/-- One round of `handleRecv` for a message that is not a heartbeat. -/
def handleRecv (s : State) (r : Tagged) : State :=
  if r.msg.type = .kRpcMethodResponse then s.handleMethodResponse r else s

end State

/-- What can happen next. -/
inductive Action where
  | begin (payload : Bytes)
  | enqueue (c : Nat)
  | send
  | serverRecv
  | serverFinish (services : Services) (m : Tagged)
  | clientRecv
  | pop (c : Nat)
  | timeout (c : Nat)
  | erase (c : Nat)

/-- One step of the system. -/
inductive Step [Machine] : State → Action → State → Prop
  /-- A caller takes an id and registers its channel. -/
  | begin (s : State) (payload : Bytes) : Step s (.begin payload) (s.register payload)
  /-- `m_chan << req`. -/
  | enqueue {s : State} {c : Nat} {k : Call} (hk : s.calls c = some k)
      (hp : k.phase = .registered) :
      Step s (.enqueue c)
        { s.setCall c { k with phase := .waiting } with
          sendQueue := s.sendQueue ++ [⟨c, k.req⟩] }
  /-- `handleSend` pops a request and sends it. -/
  | send {s : State} {m : Tagged} {rest : List Tagged} (h : s.sendQueue = m :: rest) :
      Step s .send { s with sendQueue := rest, toServer := s.toServer ++ [m] }
  /-- The server receives a request and starts a coroutine for it. -/
  | serverRecv {s : State} {m : Tagged} {rest : List Tagged} (h : s.toServer = m :: rest) :
      Step s .serverRecv { s with toServer := rest, handling := m :: s.handling }
  /-- Some coroutine finishes `handleMethodCall` and sends the response.  The
  methods may behave differently each time they are called. -/
  | serverFinish {s : State} {services : Services} {m : Tagged} {rsp : Protocol}
      (h : m ∈ s.handling) (hrsp : handleMethodCall services m.msg = .ok rsp) :
      Step s (.serverFinish services m)
        { s with
          handling := s.handling.erase m
          toClient := s.toClient ++ [⟨m.call, rsp⟩]
          answers := ⟨m.call, rsp⟩ :: s.answers }
  /-- The client receives a response. -/
  | clientRecv {s : State} {r : Tagged} {rest : List Tagged} (h : s.toClient = r :: rest) :
      Step s .clientRecv ({ s with toClient := rest }.handleRecv r)
  /-- `recv_chan >> rsp`. -/
  | pop {s : State} {c : Nat} {k : Call} {r : Tagged} {rest : List Tagged}
      (hk : s.calls c = some k) (hp : k.phase = .waiting) (hc : k.recvChan = r :: rest) :
      Step s (.pop c) (s.setCall c { k with recvChan := rest, phase := .woken (.response r) })
  /-- `TimedPop` gives up. -/
  | timeout {s : State} {c : Nat} {k : Call} (hk : s.calls c = some k) (hp : k.phase = .waiting) :
      Step s (.timeout c) (s.setCall c { k with phase := .woken .timeout })
  /-- The second locked section: `m_outstanding_call.erase(id)`. -/
  | erase {s : State} {c : Nat} {k : Call} {out : Outcome} (hk : s.calls c = some k)
      (hp : k.phase = .woken out) :
      Step s (.erase c)
        { s.setCall c { k with phase := .ended out } with
          outstanding := Function.update s.outstanding k.id none }

/-- A state some run from a fresh connection leads to. -/
def Reachable [Machine] (s : State) : Prop := ∃ as, Lts.Run Step init as s

theorem Reachable.step [Machine] {s t : State} {a : Action} (h : Reachable s) (hs : Step s a t) :
    Reachable t := by
  obtain ⟨as, hrun⟩ := h
  exact ⟨as ++ [a], .snoc hrun hs⟩

end Calls
end XzmjxRpc
