import XzmjxRpc.Lib.Run

/-!
# XzmjxRpc.Rpc.Heartbeat

The heartbeats of a connection: the timer callback of `RpcClient::connect`,
the send loop, the server and the receive loop (`rpc/rpc_client.cpp`), as a
step relation.  The registry heartbeat of `RpcServer::start`
(`rpc/rpc_server.cpp`) is the same system; only its callback re-arms the timer
before it clears the response flag.

Heartbeats are numbered in the order in which they are queued; the program
does not know the numbers.  `received` records whose answers the client has.

The callback queues its heartbeat before it clears the flag.  When the answer
comes in between, the flag is cleared after it was set, and the next tick
takes an answered heartbeat for a missing one.
-/

namespace XzmjxRpc
namespace Heartbeat

/-- What a callback does after it has found the response flag set. -/
inductive Op where
  /-- `m_chan << heartbeat`. -/
  | queue
  /-- `m_is_heartbeat_response = false`. -/
  | clear
  /-- `m_heartbeat_timer_id = m_heartbeat_timer.ExpireAt(...)`. -/
  | rearm
  deriving DecidableEq, Repr

/-- The callback of `RpcClient::connect`. -/
def clientCallback : List Op := [.queue, .clear, .rearm]

/-- The callback of `RpcServer::start`. -/
def registryCallback : List Op := [.queue, .rearm, .clear]

/-- One end of the connection, the wire and the other end. -/
structure State where
  /-- `m_is_heartbeat_response`. -/
  flag : Bool
  /-- How often the timer is set. -/
  armed : Nat
  /-- What the callbacks that have started and not finished still have to do. -/
  running : List (List Op)
  /-- The heartbeats queued so far are those with a smaller number. -/
  queued : Nat
  /-- `m_chan`. -/
  chan : List Nat
  toServer : List Nat
  /-- The heartbeats whose coroutines have not answered yet. -/
  handling : List Nat
  toClient : List Nat
  received : List Nat
  /-- The connection was closed for a missing heartbeat. -/
  closed : Bool
  deriving DecidableEq, Repr

/-- After `connect`: the flag is set, and so is the timer. -/
def init : State := ⟨true, 1, [], 0, [], [], [], [], [], false⟩

/-- What can happen next. -/
inductive Action where
  /-- The timer expires, and the callback tests the flag. -/
  | tick
  /-- A callback goes on with its next operation. -/
  | callback (i : Nat)
  /-- `handleSend` sends the next heartbeat. -/
  | send
  /-- `handleSend` fails to. -/
  | sendFail
  /-- The server receives a heartbeat. -/
  | serverRecv
  /-- A coroutine of the server answers one. -/
  | answer (n : Nat)
  /-- `handleRecv` receives an answer. -/
  | recv
  deriving DecidableEq, Repr

namespace State

/-- An operation of a callback. -/
def exec (s : State) : Op → State
  | .queue => { s with chan := s.chan ++ [s.queued], queued := s.queued + 1 }
  | .clear => { s with flag := false }
  | .rearm => { s with armed := s.armed + 1 }

/-- The callback from the expiry of the timer on: without a response the
connection is closed. -/
def tick (callback : List Op) (s : State) : State :=
  if s.flag then { s with armed := s.armed - 1, running := s.running ++ [callback] }
  else { s with armed := s.armed - 1, closed := true }

/-- The next state, if the action can happen.  Nothing happens any more when
the connection was closed. -/
def next (callback : List Op) (s : State) (a : Action) : Option State :=
  if s.closed then none
  else
    match a with
    | .tick => if s.armed = 0 then none else some (s.tick callback)
    | .callback i =>
        match s.running[i]? with
        | some (op :: ops) => some ({ s with running := s.running.set i ops }.exec op)
        | _ => none
    | .send =>
        match s.chan with
        | [] => none
        | n :: rest => some { s with chan := rest, toServer := s.toServer ++ [n] }
    | .sendFail =>
        match s.chan with
        | [] => none
        | _ :: rest => some { s with chan := rest }
    | .serverRecv =>
        match s.toServer with
        | [] => none
        | n :: rest => some { s with toServer := rest, handling := n :: s.handling }
    | .answer n =>
        if n ∈ s.handling then
          some { s with handling := s.handling.erase n, toClient := s.toClient ++ [n] }
        else none
    | .recv =>
        match s.toClient with
        | [] => none
        | n :: rest => some { s with toClient := rest, flag := true, received := n :: s.received }

/-- A heartbeat was queued whose answer has not been received. -/
def Awaits (s : State) : Prop := ∃ n, n < s.queued ∧ n ∉ s.received

instance (s : State) : Decidable s.Awaits :=
  inferInstanceAs (Decidable (∃ n, n < s.queued ∧ n ∉ s.received))

/-- The next operation of callback `i`. -/
def nextOp (s : State) (i : Nat) : Option Op := s.running[i]?.bind List.head?

end State

/-- One step. -/
def Step (callback : List Op) (s : State) (a : Action) (t : State) : Prop :=
  s.next callback a = some t

instance (callback : List Op) (s : State) (a : Action) (t : State) :
    Decidable (Step callback s a t) :=
  inferInstanceAs (Decidable (s.next callback a = some t))

/-! ## what a step does to the flag -/

/-- A step that clears the flag does so while an answer is awaited. -/
def ClearsInTime (s : State) : Action → Prop
  | .callback i => s.nextOp i = some .clear → s.Awaits
  | _ => True

/-- At a tick every heartbeat has been answered. -/
def Prompt (s : State) : Action → Prop
  | .tick => ¬ s.Awaits
  | _ => True

instance : (s : State) → (a : Action) → Decidable (ClearsInTime s a)
  | s, .callback i => inferInstanceAs (Decidable (s.nextOp i = some .clear → s.Awaits))
  | _, .tick | _, .send | _, .sendFail | _, .serverRecv | _, .answer _ | _, .recv => isTrue trivial

instance : (s : State) → (a : Action) → Decidable (Prompt s a)
  | s, .tick => inferInstanceAs (Decidable (¬ s.Awaits))
  | _, .callback _ | _, .send | _, .sendFail | _, .serverRecv | _, .answer _ | _, .recv =>
    isTrue trivial

variable {callback : List Op} {s t : State} {a : Action}

/-- Everything a step can do to the flag, the count of heartbeats and the
answers: a callback runs an operation, an answer comes in, or nothing; and a
tick closes the connection if the flag is clear. -/
theorem Step.inv (h : Step callback s a t) :
    s.closed = false ∧
      ((∃ i op ops, a = .callback i ∧ s.running[i]? = some (op :: ops) ∧
          t = { s with running := s.running.set i ops }.exec op) ∨
        (∃ n, a = .recv ∧ t.flag = true ∧ t.queued = s.queued ∧ t.received = n :: s.received ∧
          t.closed = false) ∨
        (a = .tick ∧ t = s.tick callback) ∨
        (a ≠ .tick ∧ t.flag = s.flag ∧ t.queued = s.queued ∧ t.received = s.received ∧
          t.closed = false)) := by
  unfold Step State.next at h
  split at h
  · cases h
  · next hopen =>
    have hopen : s.closed = false := by simpa using hopen
    refine ⟨hopen, ?_⟩
    split at h
    · split at h <;> cases h
      exact .inr (.inr (.inl ⟨rfl, rfl⟩))
    · split at h
      · next hi =>
        cases h
        exact .inl ⟨_, _, _, rfl, hi, rfl⟩
      · cases h
    all_goals
      split at h <;> cases h
      simp [hopen]

@[simp]
theorem flag_tick : (s.tick callback).flag = s.flag := by
  unfold State.tick
  split <;> rfl

@[simp]
theorem queued_tick : (s.tick callback).queued = s.queued := by
  unfold State.tick
  split <;> rfl

@[simp]
theorem received_tick : (s.tick callback).received = s.received := by
  unfold State.tick
  split <;> rfl

/-- A tick closes the connection exactly when the flag is clear. -/
theorem closed_tick (hs : s.closed = false) : (s.tick callback).closed = true ↔ s.flag = false := by
  unfold State.tick
  split <;> simp_all

/-- **The flag**: as long as it is cleared in time, it is clear only while an
answer is awaited. -/
theorem Step.awaits (h : Step callback s a t) (hs : s.flag = false → s.Awaits)
    (hc : ClearsInTime s a) (ht : t.flag = false) : t.Awaits := by
  obtain ⟨-, ⟨i, op, ops, rfl, hi, rfl⟩ | ⟨n, -, hflag, -⟩ | ⟨-, rfl⟩ |
    ⟨-, hflag, hqueued, hreceived, -⟩⟩ := h.inv
  · cases op with
    | queue =>
        obtain ⟨n, hn, hnot⟩ := hs ht
        exact ⟨n, Nat.lt_succ_of_lt hn, hnot⟩
    | clear => exact hc (by simp [State.nextOp, hi])
    | rearm => exact hs ht
  · rw [hflag] at ht
    cases ht
  · rw [flag_tick] at ht
    obtain ⟨n, hn, hnot⟩ := hs ht
    exact ⟨n, by rwa [queued_tick], by rwa [received_tick]⟩
  · obtain ⟨n, hn, hnot⟩ := hs (hflag ▸ ht)
    exact ⟨n, hqueued ▸ hn, hreceived ▸ hnot⟩

/-- In every run that clears the flag in time, a clear flag means that an
answer is awaited. -/
theorem awaits_of_run {C : State → Action → Prop} (hC : ∀ s a, C s a → ClearsInTime s a)
    {as : List Action} (h : Lts.Run (Lts.Restrict (Step callback) C) init as s) :
    s.flag = false → s.Awaits :=
  Lts.Run.invariant (I := fun s => s.flag = false → s.Awaits) (fun h => by cases h)
    (fun s a _ hs hstep ht => hstep.2.awaits hs (hC s a hstep.1) ht) h

/-- Only a tick closes the connection. -/
theorem Step.closed (h : Step callback s a t) (ht : t.closed = true) :
    a = .tick ∧ s.flag = false := by
  obtain ⟨hopen, ⟨i, op, ops, rfl, -, rfl⟩ | ⟨n, -, -, -, -, hclosed⟩ | ⟨rfl, rfl⟩ |
    ⟨-, -, -, -, hclosed⟩⟩ := h.inv
  · cases op <;> simp [State.exec, hopen] at ht
  · rw [hclosed] at ht
    cases ht
  · exact ⟨rfl, (closed_tick hopen).mp ht⟩
  · rw [hclosed] at ht
    cases ht

/-- **Missing heartbeats**: in every run in which each callback clears the
flag while an answer is awaited, the connection is closed only when some
heartbeat queued before has not been answered; and if at each tick all of them
have been, it is never closed. -/
theorem closed_only_if_awaits (callback : List Op) :
    (∀ as s a t, Lts.Run (Lts.Restrict (Step callback) ClearsInTime) init as s →
      Step callback s a t → t.closed = true → s.Awaits) ∧
    ∀ as s, Lts.Run (Lts.Restrict (Step callback) fun s a => ClearsInTime s a ∧ Prompt s a) init
      as s → s.closed = false := by
  constructor
  · intro as s a t hrun hstep ht
    exact awaits_of_run (fun _ _ h => h) hrun (hstep.closed ht).2
  · intro as s hrun
    cases hrun with
    | nil => rfl
    | snoc hrun hstep =>
        obtain ⟨⟨hc, hprompt⟩, hstep⟩ := hstep
        cases hclosed : s.closed with
        | false => rfl
        | true =>
            obtain ⟨rfl, hflag⟩ := hstep.closed hclosed
            exact absurd (awaits_of_run (fun _ _ h => h.1) hrun hflag) hprompt

/-- A first heartbeat that nobody answers, up to the tick that closes the
connection. -/
theorem closed_only_if_awaits_client :
    ∃ s, Lts.Run (Lts.Restrict (Step clientCallback) ClearsInTime) init
        [.tick, .callback 0, .callback 0, .callback 0] s ∧
      (s.tick clientCallback).closed = true ∧ s.Awaits := by
  let s : State := ⟨false, 1, [[]], 1, [0], [], [], [], [], false⟩
  have hrun : Lts.Run (Lts.Restrict (Step clientCallback) ClearsInTime) init
      [.tick, .callback 0, .callback 0, .callback 0] s :=
    Lts.Run.of_foldlM (fun s a => if ClearsInTime s a then s.next clientCallback a else none)
      (fun _ _ _ => Option.ite_none_right_eq_some.mp) (by decide)
  have htick : Step clientCallback s .tick (s.tick clientCallback) := by decide
  exact ⟨s, hrun, rfl, (closed_only_if_awaits clientCallback).1 _ _ _ _ hrun htick rfl⟩

/-- The answer comes in after the heartbeat was queued and before the flag is
cleared: at each tick every heartbeat has been answered, and the second tick
closes the connection. -/
theorem not_closed_only_if_awaits_answered :
    ∃ s t, Lts.Run (Lts.Restrict (Step clientCallback) Prompt) init
        [.tick, .callback 0, .send, .serverRecv, .answer 0, .recv, .callback 0, .callback 0] s ∧
      ¬ s.Awaits ∧ Step clientCallback s .tick t ∧ t.closed = true :=
  ⟨⟨false, 1, [[]], 1, [], [], [], [], [0], false⟩, ⟨false, 0, [[]], 1, [], [], [], [], [0], true⟩,
    Lts.Run.of_foldlM (fun s a => if Prompt s a then s.next clientCallback a else none)
      (fun _ _ _ => Option.ite_none_right_eq_some.mp) (by decide),
    by decide, by decide, rfl⟩

/-- A tick that finds the flag clear closes the connection, also when every
heartbeat has been answered. -/
theorem closes_of_flag (hs : s.closed = false) (hflag : s.flag = false) (harmed : s.armed ≠ 0)
    (hawaits : ¬ s.Awaits) :
    ∃ t, Step callback s .tick t ∧ t.closed = true ∧ ¬ t.Awaits := by
  have hstep : Step callback s .tick (s.tick callback) := by
    simp [Step, State.next, hs, harmed]
  refine ⟨_, hstep, (closed_tick hs).mpr hflag, ?_⟩
  rintro ⟨n, hn, hnot⟩
  rw [queued_tick] at hn
  rw [received_tick] at hnot
  exact hawaits ⟨n, hn, hnot⟩

/-- A client's callback that clears the flag too late does close it: it re-arms
the timer, and the next tick closes the connection with every heartbeat
answered. -/
theorem closes_of_late_clear_client {i : Nat} (hs : s.closed = false) (hlate : ¬ s.Awaits)
    (hi : s.running[i]? = some (clientCallback.drop 1)) :
    ∃ t, Lts.Run (Step clientCallback) s [.callback i, .callback i, .tick] t ∧
      t.closed = true ∧ ¬ t.Awaits := by
  have hlt : i < s.running.length := (List.getElem?_eq_some_iff.mp hi).1
  have hi : s.running[i]? = some [.clear, .rearm] := hi
  let s₁ : State := { s with running := s.running.set i [.rearm], flag := false }
  let s₂ : State := { s₁ with running := s₁.running.set i [], armed := s.armed + 1 }
  have h₁ : Step clientCallback s (.callback i) s₁ := by
    simp [Step, State.next, State.exec, hs, hi, s₁]
  have h₂ : Step clientCallback s₁ (.callback i) s₂ := by
    simp [Step, State.next, State.exec, hs, hlt, s₁, s₂]
  obtain ⟨t, h₃, ht⟩ :=
    closes_of_flag (s := s₂) hs rfl (Nat.succ_ne_zero _) hlate
  exact ⟨t, ((Lts.Run.single h₁).snoc h₂).snoc h₃, ht⟩

/-- The server's callback has re-armed the timer before. -/
theorem closes_of_late_clear_registry {i : Nat} (hs : s.closed = false) (hlate : ¬ s.Awaits)
    (hi : s.running[i]? = some (registryCallback.drop 2)) (harmed : s.armed ≠ 0) :
    ∃ t, Lts.Run (Step registryCallback) s [.callback i, .tick] t ∧
      t.closed = true ∧ ¬ t.Awaits := by
  have hi : s.running[i]? = some [.clear] := hi
  let s₁ : State := { s with running := s.running.set i [], flag := false }
  have h₁ : Step registryCallback s (.callback i) s₁ := by
    simp [Step, State.next, State.exec, hs, hi, s₁]
  obtain ⟨t, h₂, ht⟩ :=
    closes_of_flag (s := s₁) hs rfl harmed hlate
  exact ⟨t, (Lts.Run.single h₁).snoc h₂, ht⟩

end Heartbeat
end XzmjxRpc
