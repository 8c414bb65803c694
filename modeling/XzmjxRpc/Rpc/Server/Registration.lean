import XzmjxRpc.Lib.Run
import XzmjxRpc.Rpc.Client

/-!
# XzmjxRpc.Rpc.Server.Registration

The registry side of an `RpcServer` (`rpc/rpc_server.cpp`): `bind`,
`bindRegistry`, `start` with its registrations, the heartbeat timer and the two
loops on the registry session, as a step relation.

Everything for the registry goes through `m_registry_send_chan`, a channel of
200 places: the announcement of `bindRegistry`, the registrations of `start`
and the heartbeats.  `start` queues its registrations before it starts the loop
that sends them.

What `sendProtocol` returns is not looked at: when a write is given up half-way,
the next message follows on the same connection (`Action.giveUp`).

`bound`, `started`, `promised`, `registered`, `queued`, `sent` and `gaveUp` are
there for the statements; no step looks at them.
-/

namespace XzmjxRpc
namespace RpcServer

/-- A name of a method. -/
abbrev Name := { s : Bytes // s.length < 2 ^ 64 }

namespace Name

/-- The order of `std::map`'s keys. -/
def Before (a b : Name) : Prop := a.1 < b.1

instance (a b : Name) : Decidable (a.Before b) := inferInstanceAs (Decidable (a.1 < b.1))

theorem Before.trans {a b c : Name} (h : a.Before b) (h' : b.Before c) : a.Before c :=
  List.lt_trans h h'

theorem Before.irrefl (a : Name) : ¬ a.Before a := List.lt_irrefl a.1

theorem Before.ne {a b : Name} (h : a.Before b) : a ≠ b := fun heq => irrefl b (heq ▸ h)

theorem eq_of_not_before {a b : Name} (h : ¬ a.Before b) (h' : ¬ b.Before a) : a = b :=
  Subtype.ext (List.le_antisymm h' h)

end Name

/-- The capacity of `m_registry_send_chan`. -/
def sendChanSize : Nat := 200

section
variable [Machine]

/-- The announcement of `bindRegistry`. -/
def providerMsg (port : BitVec 32) : Protocol :=
  .createSuccess .kRpcServiceProvider (Serializer.put .new .uint32 port).rewind.toString 0

/-- The request of `registerServiceToRegistry(service)`. -/
def registerMsg (service : Name) : Protocol :=
  .createSuccess .kRpcServiceRegisterRequest (Serializer.put .new .string service).rewind.toString 0

/-- What `serializer << o; serializer.reset(); serializer.toString()` gives. -/
theorem toString_put (t : Ty) (o : t.Obj) :
    (Serializer.put .new t o).rewind.toString = serialize t o := by
  unfold Serializer.put
  rw [FlatBuffer.toString_rewind, FlatBuffer.data_new_write]

@[simp] theorem payload_providerMsg (port : BitVec 32) :
    (providerMsg port).payload = serialize .uint32 port := by
  rw [providerMsg, Protocol.createSuccess, Protocol.payload_create]
  exact toString_put .uint32 port

@[simp] theorem payload_registerMsg (service : Name) :
    (registerMsg service).payload = serialize .string service := by
  rw [registerMsg, Protocol.createSuccess, Protocol.payload_create]
  exact toString_put .string service

end

/-- What a call of `bindRegistry` or `start` does next. -/
inductive Pending where
  /-- `m_registry_send_chan << provider`. -/
  | announce (port : BitVec 32)
  /-- The loop over `m_services`, after this key. -/
  | register (last : Option Name)
  deriving DecidableEq

/-- The members of a server that the registry side uses. -/
structure State where
  /-- The keys of `m_services`, in the order of the map. -/
  services : List Name := []
  /-- `m_port`. -/
  port : BitVec 32 := 0
  /-- `m_is_stop`. -/
  isStop : Bool := true
  /-- `m_registry_session`: null, or its `isConnected()`. -/
  session : Option Bool := none
  /-- The connection to the registry is gone, whatever `isConnected()` says. -/
  broken : Bool := false
  /-- `m_registry_send_chan`. -/
  chan : List Protocol := []
  pending : Option Pending := none
  /-- `m_registry_heartbeat_rsp`. -/
  heartbeatRsp : Bool := false
  /-- The timers that are set, the next one, and `m_register_timer_id`. -/
  timers : List Nat := []
  nextTimer : Nat := 0
  timerId : Option Nat := none
  /-- How many callbacks have found the response flag set and not queued yet. -/
  beating : Nat := 0
  /-- How many `handleRegistrySessionSend` and `handleRegistrySessionRecv` run. -/
  sendLoops : Nat := 0
  recvLoops : Nat := 0
  /-- The port that `bindRegistry` announces. -/
  bound : Option (BitVec 32) := none
  /-- `start` has begun to register services. -/
  started : Bool := false
  /-- The services when it did. -/
  promised : List Name := []
  /-- Those that it has queued so far. -/
  registered : List Name := []
  queued : List Protocol := []
  /-- The messages that were written whole. -/
  sent : List Protocol := []
  /-- A write has been given up before its message was out. -/
  gaveUp : Bool := false

/-- What can happen next. -/
inductive Action where
  | registerMethod (name : Name)
  | bind (port : BitVec 16)
  /-- `bindRegistry` up to its push, or all of it when it cannot connect. -/
  | bindRegistry (connected : Bool)
  /-- `start` up to its first push, or all of it when it pushes nothing. -/
  | start
  /-- The pending call pushes its next message. -/
  | push
  /-- The rest of `start`, after the loop. -/
  | run
  | stop
  /-- A timer expires, and the callback tests the response flag. -/
  | tick (id : Nat)
  /-- The rest of a callback. -/
  | beat
  /-- One round of `handleRegistrySessionSend`. -/
  | send
  /-- One whose write fails before the message is out. -/
  | giveUp
  /-- `handleRegistrySessionRecv` receives a heartbeat. -/
  | recvHeartbeat
  /-- `handleRegistrySessionRecv` receives null. -/
  | recvNull
  /-- The connection breaks. -/
  | lose

/-- The first key after `last`. -/
def nextService (services : List Name) (last : Option Name) : Option Name :=
  services.find? fun n => last.all (·.Before n)

/-- Where the map puts a new key. -/
def insertName (name : Name) : List Name → List Name
  | [] => [name]
  | n :: services =>
      if name.Before n then name :: n :: services
      else if name = n then n :: services
      else n :: insertName name services

namespace State

/-- There is room in the channel. -/
def HasRoom (s : State) : Prop := s.chan.length < sendChanSize

instance (s : State) : Decidable s.HasRoom := inferInstanceAs (Decidable (_ < _))

/-- `m_registry_send_chan << msg`, when there is room. -/
def enqueue (s : State) (msg : Protocol) : State :=
  { s with chan := s.chan ++ [msg], queued := s.queued ++ [msg] }

/-- `m_register_timer_id = m_register_timer.ExpireAt(...)`. -/
def arm (s : State) : State :=
  { s with
    timers := s.timers ++ [s.nextTimer]
    timerId := some s.nextTimer
    nextTimer := s.nextTimer + 1 }

/-- `m_registry_session->close()`. -/
def closeSession (s : State) : State := { s with session := s.session.map fun _ => false }

/-- `start()` up to its first push. -/
def start (s : State) : State :=
  if s.isStop = false then s
  else if s.session = some true then
    { s with pending := some (.register none), started := true, promised := s.services }
  else { s with isStop := false }

/-- `start()` after its loop. -/
def run (s : State) : State :=
  { ({ s with heartbeatRsp := true } : State).arm with
    pending := none
    sendLoops := s.sendLoops + 1
    recvLoops := s.recvLoops + 1
    isStop := false }

section
variable [Machine]

/-- One round of `handleRegistrySessionSend`, for a message off the channel. -/
def sendRound (s : State) (msg : Protocol) (rest : List Protocol) : State :=
  if s.session = some true then
    if s.broken then { s with chan := rest }
    else { s with chan := rest, sent := s.sent ++ [msg] }
  else { s with chan := rest, sendLoops := s.sendLoops - 1 }

/-- The next state, if the action can happen: a push waits for room. -/
def next (s : State) : Action → Option State
  | .registerMethod name => some { s with services := insertName name s.services }
  | .bind port => some { s with port := port.setWidth 32 }
  | .bindRegistry connected =>
      if s.pending.isSome then none
      else if connected then
        some { s with
          session := some true
          broken := false
          pending := some (.announce s.port)
          bound := some s.port }
      else some s
  | .start => if s.pending.isSome then none else some s.start
  | .push =>
      if s.HasRoom then
        match s.pending with
        | some (.announce port) => some { s.enqueue (providerMsg port) with pending := none }
        | some (.register last) =>
            (nextService s.services last).map fun name =>
              { s.enqueue (registerMsg name) with
                pending := some (.register (some name))
                registered := s.registered ++ [name] }
        | none => none
      else none
  | .run =>
      match s.pending with
      | some (.register last) =>
          if nextService s.services last = none then some s.run else none
      | _ => none
  | .stop => some { s with isStop := true }
  | .tick id =>
      if id ∈ s.timers then
        let s := { s with timers := s.timers.erase id }
        if s.heartbeatRsp then some { s with beating := s.beating + 1 } else some s.closeSession
      else none
  | .beat =>
      if s.beating ≠ 0 ∧ s.HasRoom then
        some { (s.enqueue .heartbeat).arm with beating := s.beating - 1, heartbeatRsp := false }
      else none
  | .send =>
      match s.chan with
      | [] => none
      | msg :: rest => if s.sendLoops = 0 then none else some (s.sendRound msg rest)
  | .giveUp =>
      match s.chan with
      | [] => none
      | _ :: rest =>
          if s.sendLoops ≠ 0 ∧ s.session = some true then
            some { s with chan := rest, gaveUp := true }
          else none
  | .recvHeartbeat => if s.recvLoops = 0 then none else some { s with heartbeatRsp := true }
  | .recvNull =>
      if s.recvLoops = 0 then none
      else
        some { s.closeSession with
          timers := s.timers.filter (some · ≠ s.timerId)
          recvLoops := s.recvLoops - 1 }
  | .lose => some { s with broken := true }

end

end State

/-- One step. -/
def Step [Machine] (s : State) (a : Action) (t : State) : Prop := s.next a = some t

/-- The server is bound to one registry, and its services are registered once. -/
def Once (s : State) : Action → Prop
  | .bindRegistry connected => connected = true → s.session = none
  | .start => s.isStop = true → s.started = false
  | _ => True

instance (s : State) (a : Action) : Decidable (Once s a) := by
  cases a <;> unfold Once <;> infer_instance

end RpcServer
end XzmjxRpc
