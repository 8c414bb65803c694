import XzmjxRpc.Rpc.Heartbeat

/-!
# XzmjxRpc.Rpc.Client.Lifecycle

An `RpcClient` over all its connections (`rpc/rpc_client.cpp`,
`call_internal` of `rpc/rpc_client.h`): what `connect`, `close`, the calls,
the heartbeat timer and the coroutines running `handleSend` and `handleRecv`
do to the members they share.  How responses find their calls is
`XzmjxRpc.Rpc.Calls`.

`m_chan` is created with the client, and `close` closes it for good; each
successful `connect` starts two more loops.  A client therefore serves its
first connection only: after a second `connect` either the channel is closed
or the loops of the connection before are still there.

The loops are started with `go co_scheduler(m_worker)`, and nothing ever sets
`m_worker`: the constructor passes its argument on to the timer only.

A closed channel takes no message.  Whether it still hands out those it holds
is left open: on a closed channel `handleSend` may do either.
-/

namespace XzmjxRpc
namespace RpcClient

open Heartbeat (Op clientCallback)

/-- What goes through `m_chan`. -/
inductive Msg where
  /-- The request of call `n`, counting from zero. -/
  | request (n : Nat)
  | heartbeat
  deriving DecidableEq, Repr

/-- What the member `m_worker` happens to hold. -/
inductive Worker where
  /-- A scheduler that runs the coroutines it is given. -/
  | scheduler
  /-- Anything else.  Starting a coroutine with it has no meaning, and certainly
  starts none. -/
  | stray
  deriving DecidableEq, Repr

/-- How many coroutines `go co_scheduler(m_worker)` starts. -/
def Worker.started : Worker → Nat
  | .scheduler => 1
  | .stray => 0

/-- The members of a client and its coroutines.  Sessions and timers are
numbered in the order in which they are created. -/
structure State where
  /-- `m_is_closed`. -/
  closed : Bool
  /-- `m_chan` has not been closed. -/
  chanOpen : Bool
  /-- What waits in `m_chan`, or to get into it. -/
  chan : List Msg
  /-- `m_session`. -/
  session : Option Nat
  /-- `m_worker`. -/
  worker : Worker
  /-- How many coroutines run `handleSend`. -/
  sendLoops : Nat
  /-- For each coroutine in `handleRecv` the session it reads from, if it is
  in `recvProtocol`. -/
  recvLoops : List (Option Nat)
  /-- `m_is_heartbeat_response`. -/
  flag : Bool
  /-- The timers that are set. -/
  timers : List Nat
  /-- `m_heartbeat_timer_id`. -/
  timerId : Option Nat
  /-- The number of the next timer. -/
  nextTimer : Nat
  /-- What the timer callbacks that have started still have to do. -/
  running : List (List Op)
  /-- `m_seq_id`, before it is taken modulo 2^64. -/
  seqId : Nat
  /-- What `handleSend` has passed to `sendProtocol`, and of which session. -/
  sent : List (Nat × Msg)
  deriving DecidableEq, Repr

/-- A new client: `m_worker` is not initialised. -/
def init (worker : Worker) : State :=
  { closed := true, chanOpen := true, chan := [], session := none, worker := worker
    sendLoops := 0, recvLoops := [], flag := false, timers := [], timerId := none
    nextTimer := 0, running := [], seqId := 0, sent := [] }

/-- What can happen next. -/
inductive Action where
  /-- `connect` returns. -/
  | connect (ok : Bool)
  /-- `close`, by the user or in the destructor. -/
  | close
  /-- `call_internal`, up to the wait for the response. -/
  | call
  /-- A timer expires, and its callback tests the flag. -/
  | tick (n : Nat)
  /-- A callback goes on with its next operation. -/
  | callback (i : Nat)
  /-- A `handleSend` takes a message and sends it. -/
  | send
  /-- A `handleSend` finds the channel closed. -/
  | sendExit
  /-- A `handleRecv` enters `recvProtocol`. -/
  | recv (i : Nat)
  /-- `recvProtocol` returns a message. -/
  | recvMsg (i : Nat) (heartbeat : Bool)
  /-- `recvProtocol` returns null: the connection is lost. -/
  | recvNull (i : Nat)
  deriving DecidableEq, Repr

namespace State

/-- `m_chan << msg`, which a closed channel ignores. -/
def push (s : State) (m : Msg) : State :=
  { s with chan := if s.chanOpen then s.chan ++ [m] else s.chan }

/-- `m_heartbeat_timer_id = m_heartbeat_timer.ExpireAt(...)`. -/
def expireAt (s : State) : State :=
  { s with
    timers := s.nextTimer :: s.timers
    timerId := some s.nextTimer
    nextTimer := s.nextTimer + 1 }

/-- `RpcClient::close`.  The socket it closes makes the `recvProtocol` that
reads from it return null, which it may at any time. -/
def close (s : State) : State :=
  if s.closed then s
  else
    { s with
      closed := true
      chanOpen := false
      timers := match s.timerId with
        | some n => s.timers.erase n
        | none => s.timers }

/-- `RpcClient::connect` once the socket is connected. -/
def connected (s : State) : State :=
  expireAt
    { s with
      closed := false
      session := some (s.session.elim 0 (· + 1))
      sendLoops := s.sendLoops + s.worker.started
      recvLoops := s.recvLoops ++ List.replicate s.worker.started none
      flag := true }

/-- `RpcClient::call_internal` up to `m_chan << req`. -/
def call (s : State) : State :=
  if s.session = none ∨ s.closed = true then s
  else { s with seqId := s.seqId + 1 }.push (.request s.seqId)

/-- The heartbeat callback up to the test of the flag. -/
def tick (s : State) (n : Nat) : State :=
  if s.flag then { s with timers := s.timers.erase n, running := s.running ++ [clientCallback] }
  else { s with timers := s.timers.erase n }.close

/-- An operation of the heartbeat callback. -/
def exec (s : State) : Op → State
  | .queue => s.push .heartbeat
  | .clear => { s with flag := false }
  | .rearm => s.expireAt

end State

/-- One step. -/
inductive Step : State → Action → State → Prop
  | connect {s : State} : Step s (.connect true) s.connected
  /-- The server cannot be reached: nothing has changed. -/
  | connectFail {s : State} : Step s (.connect false) s
  | close {s : State} : Step s .close s.close
  | call {s : State} : Step s .call s.call
  | tick {s : State} {n : Nat} (hn : n ∈ s.timers) : Step s (.tick n) (s.tick n)
  | callback {s : State} {i : Nat} {op : Op} {ops : List Op}
      (hi : s.running[i]? = some (op :: ops)) :
      Step s (.callback i) ({ s with running := s.running.set i ops }.exec op)
  /-- `handleSend` reads `m_session` anew for each message. -/
  | send {s : State} {m : Msg} {rest : List Msg} {k : Nat} (hchan : s.chan = m :: rest)
      (hk : s.session = some k) (hloop : 0 < s.sendLoops) :
      Step s .send { s with chan := rest, sent := (k, m) :: s.sent }
  | sendExit {s : State} (hclosed : s.chanOpen = false) (hloop : 0 < s.sendLoops) :
      Step s .sendExit { s with sendLoops := s.sendLoops - 1 }
  /-- `handleRecv` reads `m_session` anew in each round. -/
  | recv {s : State} {i k : Nat} (hi : s.recvLoops[i]? = some none) (hk : s.session = some k) :
      Step s (.recv i) { s with recvLoops := s.recvLoops.set i (some k) }
  | recvMsg {s : State} {i k : Nat} {heartbeat : Bool} (hi : s.recvLoops[i]? = some (some k)) :
      Step s (.recvMsg i heartbeat)
        { s with recvLoops := s.recvLoops.set i none, flag := s.flag || heartbeat }
  /-- `handleRecv` closes the client, whichever session it was reading from. -/
  | recvNull {s : State} {i k : Nat} (hi : s.recvLoops[i]? = some (some k)) :
      Step s (.recvNull i) { s.close with recvLoops := s.recvLoops.eraseIdx i }

/-- `connect` succeeds only on a client that was never connected, and whose
`m_worker` happens to hold a scheduler. -/
def ConnectsOnce (s : State) (a : Action) : Prop :=
  a = .connect true → s.session = none ∧ s.worker = .scheduler

/-- The channel takes messages, and one send loop and one receive loop serve
the current session. -/
structure State.Serves (s : State) : Prop where
  accepts : s.chanOpen = true
  sendLoop : s.sendLoops = 1
  recvLoop : ∃ k, s.session = some k ∧ (s.recvLoops = [none] ∨ s.recvLoops = [some k])

/-- The request of every call waits in the channel or was sent over the
current session. -/
def State.Delivers (s : State) : Prop :=
  ∀ n < s.seqId, .request n ∈ s.chan ∨ ∃ k, s.session = some k ∧ (k, .request n) ∈ s.sent

/-- A call made now is accepted, and the send loop can go on until its request
is sent over the current session. -/
def State.CallSent (s : State) : Prop :=
  ∃ t u k, Step s .call t ∧ t.seqId = s.seqId + 1 ∧ s.session = some k ∧
    Lts.Run Step t (List.replicate t.chan.length .send) u ∧ (k, .request s.seqId) ∈ u.sent

variable {s t : State} {a : Action}

/-! ## what the operations leave alone -/

/-- An open channel takes the message. -/
theorem chan_push (h : s.chanOpen = true) (m : Msg) : (s.push m).chan = s.chan ++ [m] := by
  simp [State.push, h]

/-- What waits goes on waiting. -/
theorem mem_push {m x : Msg} (h : x ∈ s.chan) : x ∈ (s.push m).chan := by
  simp only [State.push]
  split
  · exact List.mem_append_left _ h
  · exact h

@[simp]
theorem closed_close : s.close.closed = true := by
  unfold State.close
  split
  · assumption
  · rfl

@[simp]
theorem chan_close : s.close.chan = s.chan := by
  unfold State.close
  split <;> rfl

@[simp]
theorem session_close : s.close.session = s.session := by
  unfold State.close
  split <;> rfl

@[simp]
theorem worker_close : s.close.worker = s.worker := by
  unfold State.close
  split <;> rfl

@[simp]
theorem sendLoops_close : s.close.sendLoops = s.sendLoops := by
  unfold State.close
  split <;> rfl

@[simp]
theorem recvLoops_close : s.close.recvLoops = s.recvLoops := by
  unfold State.close
  split <;> rfl

@[simp]
theorem seqId_close : s.close.seqId = s.seqId := by
  unfold State.close
  split <;> rfl

@[simp]
theorem sent_close : s.close.sent = s.sent := by
  unfold State.close
  split <;> rfl

/-- A client that is closed is not closed again. -/
theorem close_of_closed (h : s.closed = true) : s.close = s := by
  simp [State.close, h]

/-! ## what a step does -/

/-- No step sets `m_worker`. -/
theorem Step.worker (h : Step s a t) : t.worker = s.worker := by
  cases h with
  | close => exact worker_close
  | call =>
      unfold State.call
      split <;> rfl
  | tick =>
      unfold State.tick
      split
      · rfl
      · exact worker_close
  | @callback _ op _ _ => cases op <;> rfl
  | recvNull => exact worker_close
  | _ => rfl

/-- What a step that is not a successful `connect` does to the members that
serve the session. -/
structure Keeps (s t : State) : Prop where
  session : t.session = s.session
  closing : (t.closed = s.closed ∧ t.chanOpen = s.chanOpen) ∨
    (s.closed = false ∧ t.closed = true ∧ t.chanOpen = false)
  sendLoops : s.chanOpen = true → t.sendLoops = s.sendLoops
  recvLoops : t.recvLoops = s.recvLoops ∨
    (∃ i k, s.session = some k ∧ s.recvLoops[i]? = some none ∧
      t.recvLoops = s.recvLoops.set i (some k)) ∨
    ∃ i k, s.recvLoops[i]? = some (some k) ∧
      (t.recvLoops = s.recvLoops.set i none ∨
        t.closed = true ∧ t.recvLoops = s.recvLoops.eraseIdx i)

/-- Such a step opens neither the client nor its channel. -/
theorem Keeps.open (h : Keeps s t) (ht : t.closed = false) :
    s.closed = false ∧ t.chanOpen = s.chanOpen := by
  rcases h.closing with ⟨hclosed, hopen⟩ | ⟨-, hclosed, -⟩
  · exact ⟨hclosed.symm.trans ht, hopen⟩
  · rw [ht] at hclosed
    cases hclosed

/-- A step that leaves these members alone. -/
theorem Keeps.of_eq (hclosed : t.closed = s.closed) (hopen : t.chanOpen = s.chanOpen)
    (hsession : t.session = s.session) (hsend : t.sendLoops = s.sendLoops)
    (hrecv : t.recvLoops = s.recvLoops) : Keeps s t :=
  ⟨hsession, .inl ⟨hclosed, hopen⟩, fun _ => hsend, .inl hrecv⟩

/-- A step that closes the client. -/
theorem Keeps.of_close (hclosed : t.closed = s.close.closed)
    (hopen : t.chanOpen = s.close.chanOpen) (hsession : t.session = s.session)
    (hsend : t.sendLoops = s.sendLoops)
    (hrecv : t.recvLoops = s.recvLoops ∨
      ∃ i k, s.recvLoops[i]? = some (some k) ∧ t.recvLoops = s.recvLoops.eraseIdx i) :
    Keeps s t where
  session := hsession
  closing := by
    cases h : s.closed with
    | true => exact .inl ⟨by rw [hclosed, closed_close], by rw [hopen, close_of_closed h]⟩
    | false => exact .inr ⟨rfl, hclosed.trans closed_close, by simp [hopen, State.close, h]⟩
  sendLoops _ := hsend
  recvLoops := hrecv.imp_right fun ⟨i, k, hi, ht⟩ =>
    .inr ⟨i, k, hi, .inr ⟨hclosed.trans closed_close, ht⟩⟩

/-- Every step but a successful `connect` is such a step. -/
theorem Step.keeps (h : Step s a t) (ha : a ≠ .connect true) : Keeps s t := by
  cases h with
  | connect => exact absurd rfl ha
  | connectFail => exact .of_eq rfl rfl rfl rfl rfl
  | close => exact .of_close rfl rfl session_close sendLoops_close (.inl recvLoops_close)
  | call =>
      unfold State.call
      split
      · exact .of_eq rfl rfl rfl rfl rfl
      · exact .of_eq rfl rfl rfl rfl rfl
  | tick hn =>
      unfold State.tick
      split
      · exact .of_eq rfl rfl rfl rfl rfl
      · refine .of_close (by simp) ?_ session_close sendLoops_close (.inl recvLoops_close)
        unfold State.close
        split <;> rfl
  | @callback i op ops hi =>
      cases op with
      | queue => exact .of_eq rfl rfl rfl rfl rfl
      | clear => exact .of_eq rfl rfl rfl rfl rfl
      | rearm => exact .of_eq rfl rfl rfl rfl rfl
  | send => exact .of_eq rfl rfl rfl rfl rfl
  | sendExit hclosed =>
      refine ⟨rfl, .inl ⟨rfl, rfl⟩, fun hopen => ?_, .inl rfl⟩
      rw [hclosed] at hopen
      cases hopen
  | recv hi hk => exact ⟨rfl, .inl ⟨rfl, rfl⟩, fun _ => rfl, .inr (.inl ⟨_, _, hk, hi, rfl⟩)⟩
  | recvMsg hi => exact ⟨rfl, .inl ⟨rfl, rfl⟩, fun _ => rfl, .inr (.inr ⟨_, _, hi, .inl rfl⟩)⟩
  | recvNull hi => exact .of_close rfl rfl session_close sendLoops_close (.inr ⟨_, _, hi, rfl⟩)

/-- It starts no send loop. -/
theorem Step.sendLoops_le (h : Step s a t) (ha : a ≠ .connect true) :
    t.sendLoops ≤ s.sendLoops := by
  cases h with
  | connect => exact absurd rfl ha
  | close => exact Nat.le_of_eq sendLoops_close
  | call =>
      unfold State.call
      split <;> exact Nat.le_refl _
  | tick =>
      unfold State.tick
      split
      · exact Nat.le_refl _
      · exact Nat.le_of_eq sendLoops_close
  | @callback _ op _ _ => cases op <;> exact Nat.le_refl _
  | sendExit => exact Nat.sub_le ..
  | recvNull => exact Nat.le_of_eq sendLoops_close
  | _ => exact Nat.le_refl _

/-- What a step does to the requests: a call adds one if the client is open,
and none is lost. -/
structure Carries (s t : State) : Prop where
  calls : t.seqId = s.seqId ∨
    s.session ≠ none ∧ s.closed = false ∧ t.seqId = s.seqId + 1 ∧
      (s.chanOpen = true → .request s.seqId ∈ t.chan)
  chan : ∀ m ∈ s.chan, m ∈ t.chan ∨ ∃ k, s.session = some k ∧ (k, m) ∈ t.sent
  sent : ∀ p ∈ s.sent, p ∈ t.sent

/-- A step that accepts no call and sends nothing. -/
theorem Carries.of_eq (hseq : t.seqId = s.seqId) (hchan : ∀ m ∈ s.chan, m ∈ t.chan)
    (hsent : t.sent = s.sent) : Carries s t where
  calls := .inl hseq
  chan m hm := .inl (hchan m hm)
  sent _ hp := hsent ▸ hp

/-- Every step is such a step. -/
theorem Step.carries (h : Step s a t) : Carries s t := by
  cases h with
  | close => exact .of_eq seqId_close (by simp) sent_close
  | call =>
      unfold State.call
      split
      · exact .of_eq rfl (fun _ h => h) rfl
      · next hcall =>
        rw [not_or, Bool.not_eq_true] at hcall
        refine ⟨.inr ⟨hcall.1, hcall.2, rfl, fun hopen => ?_⟩,
          fun m hm => .inl (mem_push hm), fun _ hp => hp⟩
        rw [chan_push (s := { s with seqId := s.seqId + 1 }) hopen]
        exact List.mem_append_right _ List.mem_cons_self
  | tick hn =>
      unfold State.tick
      split <;> exact .of_eq (by simp) (by simp) (by simp)
  | @callback i op ops hi =>
      cases op with
      | queue => exact .of_eq rfl (fun _ h => mem_push h) rfl
      | clear => exact .of_eq rfl (fun _ h => h) rfl
      | rearm => exact .of_eq rfl (fun _ h => h) rfl
  | @send m rest k hchan hk hloop =>
      refine ⟨.inl rfl, fun x hx => ?_, fun p hp => List.mem_cons_of_mem _ hp⟩
      rw [hchan] at hx
      rcases List.mem_cons.mp hx with rfl | hx
      · exact .inr ⟨k, hk, List.mem_cons_self⟩
      · exact .inl hx
  | recvNull hi => exact .of_eq seqId_close (by simp) sent_close
  | connect | connectFail | sendExit _ _ | recv _ _ | recvMsg _ =>
      exact .of_eq rfl (fun _ h => h) rfl

end RpcClient
end XzmjxRpc
