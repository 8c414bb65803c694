import Mathlib.Data.Finset.Lattice.Basic
import XzmjxRpc.Lib.Run
import XzmjxRpc.Rpc.Wire.Calls

/-!
# XzmjxRpc.Rpc.Server.Clients

All the clients of an `RpcServer` at once: `handleClient`
(`rpc/rpc_server.cpp`) of each with the coroutines it starts, its timer, and
the descriptor its `Socket` (`net/socket.cpp`) holds.

The loop, the coroutines and the timers of all clients take turns in any
order.  The kernel may give a new client any descriptor that is not open, also
one that was closed a moment ago.

A timer that expires closes its client's socket, and so does the end of the
`RpcSession`.  `Socket::close()` takes no lock and the scheduler has a thread
for every core, so its statements are steps of their own, and several calls of
it may be under way for one socket.

What is received, handled and sent is `recvProtocol`, `Wire.respond` and
`sendProtocol`; here `recvProtocol` gives a message or null or throws, and a
send succeeds or not.
-/

namespace XzmjxRpc
namespace Clients

/-! ## a socket -/

/-- The statement that a call of `Socket::close()` has come to. -/
inductive CloseAt where
  /-- `if (!m_is_connect && m_sock_fd == -1)`. -/
  | test
  /-- `m_is_connect = false`. -/
  | disconnect
  /-- `if (m_sock_fd != -1)`. -/
  | check
  /-- `::close(m_sock_fd)`. -/
  | close
  /-- `m_sock_fd = -1`. -/
  | forget
  deriving DecidableEq, Repr

/-- A `Socket` of a client. -/
structure Socket where
  /-- `m_sock_fd`. -/
  sockFd : Option Nat
  /-- `m_is_connect`. -/
  isConnect : Bool := true
  /-- The calls of `close()` that have not returned. -/
  closing : List CloseAt := []

namespace Socket

/-- A call of `close()`. -/
def close (sock : Socket) : Socket := { sock with closing := sock.closing ++ [.test] }

/-- Call number `k` of `close()` goes on at `next`, or returns. -/
def goOn (sock : Socket) (k : Nat) (next : Option CloseAt) : Socket :=
  match next with
  | none => { sock with closing := sock.closing.eraseIdx k }
  | some stmt => { sock with closing := sock.closing.set k stmt }

/-- A statement of call number `k` of `close()`, and what it passes to `::close`. -/
def closeStmt (sock : Socket) (k : Nat) : CloseAt → Socket × List Nat
  | .test =>
      (sock.goOn k (if sock.isConnect = false ∧ sock.sockFd = none then none
        else some .disconnect), [])
  | .disconnect => ({ sock with isConnect := false }.goOn k (some .check), [])
  | .check => (sock.goOn k (if sock.sockFd = none then none else some .close), [])
  | .close => (sock.goOn k (some .forget), sock.sockFd.toList)
  | .forget => ({ sock with sockFd := none }.goOn k none, [])

/-- The descriptor that is the client's: after `::close` it is not any more,
whatever `m_sock_fd` says. -/
def holds (sock : Socket) : Option Nat :=
  if CloseAt.forget ∈ sock.closing then none else sock.sockFd

end Socket

/-! ## a client -/

/-- Where `handleClient` of a client stands. -/
inductive At where
  /-- The coroutine has not run yet. -/
  | entry
  /-- `while (client->isConnected())`. -/
  | test
  /-- `session->recvProtocol()`. -/
  | recv
  /-- Before `time_id.StopTimer()`. -/
  | received (req : Protocol)
  /-- Before `m_client_timer.ExpireAt`. -/
  | stopped (req : Protocol)
  | ended
  /-- `recvProtocol` has thrown: `handleClient` is left, its timer is not stopped. -/
  | thrown
  deriving DecidableEq, Repr

/-- A coroutine that `handleClient` has started, at its beginning or before
`sendProtocol`. -/
inductive Job where
  | handle (req : Protocol)
  | send (rsp : Protocol)
  deriving DecidableEq, Repr

/-- A client's `Socket`, its `RpcSession` and what runs for it. -/
structure Client where
  socket : Socket
  loop : At := .entry
  /-- The `RpcSession` exists. -/
  session : Bool := false
  /-- `time_id`, how many timers were set, and those that are. -/
  timeId : Option Nat := none
  timers : Nat := 0
  live : Finset Nat := ∅
  jobs : List Job := []
  received : List Protocol := []
  sent : List Protocol := []

namespace Client

/-- `~SocketStream()` of the session, which owns the socket. -/
def endSession (c : Client) : Client :=
  { c with session := false, socket := if c.socket.isConnect then c.socket.close else c.socket }

/-- `time_id.StopTimer()`. -/
def stopTimer (c : Client) : Client :=
  match c.timeId with
  | none => c
  | some t => { c with live := c.live.erase t }

/-- `time_id = m_client_timer.ExpireAt(…)`. -/
def setTimer (c : Client) : Client :=
  { c with timeId := some c.timers, timers := c.timers + 1, live := insert c.timers c.live }

/-- `go …`. -/
def spawn (c : Client) (req : Protocol) : Client := { c with jobs := c.jobs ++ [.handle req] }

end Client

/-- What happens to a client. -/
inductive Act where
  /-- `handleClient` up to its loop. -/
  | start
  | test
  /-- `recvProtocol` returns; after null, the rest of `handleClient`. -/
  | recv (msg : Option Protocol)
  /-- `recvProtocol` throws. -/
  | recvThrow
  | stopTimer
  /-- The timer is set again and the message handed over. -/
  | handOver
  | expire (t : Nat)
  /-- The next statement of call number `k` of `close()`. -/
  | closing (k : Nat)
  /-- Coroutine number `k` makes its answer and tests the connection. -/
  | handle (k : Nat)
  | send (k : Nat) (ok : Bool)
  /-- Nobody uses the session any more. -/
  | release

section
variable [Machine]

/-- What a message is answered with; an exception ends the coroutine. -/
def answer (services : Services) (req : Protocol) : Option Protocol :=
  match Wire.respond services req with
  | .ok rsp => rsp
  | .error _ => none

/-- The client after a step, if it can take it, and what is passed to `::close`. -/
def Client.next (services : Services) (c : Client) : Act → Option (Client × List Nat)
  | .start =>
      if c.loop = .entry then
        some ({ c with session := true, loop := .test }.setTimer, [])
      else none
  | .test =>
      if c.loop = .test then
        some ({ c with loop := if c.socket.isConnect then .recv else .ended }, [])
      else none
  | .recv msg =>
      if c.loop = .recv then
        match msg with
        | none => some ({ c.stopTimer with loop := .ended }, [])
        | some req => some ({ c with loop := .received req, received := c.received ++ [req] }, [])
      else none
  | .recvThrow => if c.loop = .recv then some ({ c with loop := .thrown }, []) else none
  | .stopTimer =>
      match c.loop with
      | .received req => some ({ c.stopTimer with loop := .stopped req }, [])
      | _ => none
  | .handOver =>
      match c.loop with
      | .stopped req => some ({ (c.setTimer.spawn req) with loop := .test }, [])
      | _ => none
  | .expire t =>
      if t ∈ c.live then
        some ({ c with live := c.live.erase t, socket := c.socket.close }, [])
      else none
  | .closing k => do
      let stmt ← c.socket.closing[k]?
      let (sock, closed) := c.socket.closeStmt k stmt
      some ({ c with socket := sock }, closed)
  | .handle k =>
      match c.jobs[k]? with
      | some (.handle req) =>
          match answer services req with
          | none => some ({ c with jobs := c.jobs.eraseIdx k }, [])
          | some rsp =>
              if c.socket.isConnect then some ({ c with jobs := c.jobs.set k (.send rsp) }, [])
              else some ({ c with jobs := c.jobs.eraseIdx k }, [])
      | _ => none
  | .send k ok =>
      match c.jobs[k]? with
      | some (.send rsp) =>
          some ({ c with
            jobs := c.jobs.eraseIdx k
            sent := if c.socket.isConnect ∧ ok then c.sent ++ [rsp] else c.sent }, [])
      | _ => none
  | .release =>
      if (c.loop = .ended ∨ c.loop = .thrown) ∧ c.jobs = [] ∧ c.session then
        some (c.endSession, [])
      else none

end

/-! ## the server -/

/-- The clients so far, and the kernel's table of open descriptors. -/
structure State where
  clients : List Client := []
  openFds : Finset Nat
  /-- Descriptors that `Socket::init` refused. -/
  leaked : Finset Nat := ∅

/-- What happens in the server. -/
inductive Action where
  /-- `Socket::accept` of a listening socket: the kernel's descriptor `fd`. -/
  | accept (fd : Nat)
  /-- The same, where `init` finds no socket context for it. -/
  | refuse (fd : Nat)
  | client (i : Nat) (a : Act)

section
variable [Machine]

/-- The state after a step, if it can happen. -/
def State.next (services : Services) (s : State) : Action → Option State
  | .accept fd =>
      if fd ∈ s.openFds then none
      else some { s with
        clients := s.clients ++ [{ socket := { sockFd := some fd } }]
        openFds := insert fd s.openFds }
  | .refuse fd =>
      if fd ∈ s.openFds then none
      else some { s with leaked := insert fd s.leaked, openFds := insert fd s.openFds }
  | .client i a => do
      let c ← s.clients[i]?
      let (c, closed) ← c.next services a
      some { s with clients := s.clients.set i c, openFds := s.openFds \ closed.toFinset }

def Step (services : Services) (s : State) (a : Action) (t : State) : Prop :=
  s.next services a = some t

end

/-- A server without clients in a process with these descriptors. -/
def State.init (base : Finset Nat) : State := { openFds := base }

/-- The descriptors that the clients hold. -/
def State.held (s : State) : List Nat := s.clients.filterMap fun c => c.socket.holds

/-- The step calls no `close()` while another call for the same socket is
under way. -/
def Client.Apart (c : Client) : Act → Prop
  | .expire _ => c.socket.closing = []
  | .release => c.socket.isConnect = true → c.socket.closing = []
  | _ => True

/-- What `Client.Apart` says of the client whose step it is. -/
def Apart (s : State) : Action → Prop
  | .client i a => ∀ c ∈ s.clients[i]?, c.Apart a
  | _ => True

instance (c : Client) : (a : Act) → Decidable (c.Apart a)
  | .expire _ => inferInstanceAs (Decidable (c.socket.closing = []))
  | .release => inferInstanceAs (Decidable (c.socket.isConnect = true → c.socket.closing = []))
  | .start | .test | .recv _ | .recvThrow | .stopTimer | .handOver | .closing _ | .handle _
  | .send _ _ => .isTrue trivial

instance (s : State) : (a : Action) → Decidable (Apart s a)
  | .client i a => inferInstanceAs (Decidable (∀ c ∈ s.clients[i]?, c.Apart a))
  | .accept _ | .refuse _ => .isTrue trivial

end Clients
end XzmjxRpc
