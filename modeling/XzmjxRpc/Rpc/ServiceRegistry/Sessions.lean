import Mathlib.Logic.Function.Basic
import XzmjxRpc.Rpc.ServiceRegistry.Disconnect

/-!
# XzmjxRpc.Rpc.ServiceRegistry.Sessions

The registry with any number of sessions, as a step relation: a client
connects, the registry handles a message of some session, or the end of one,
and each of these is one step.  A step that crashes the registry does not
exist.  (When `m_rwmutex` keeps them apart, and when not, is in
`ServiceRegistry.Locked`.)

`registered` records the pairs that a session added; no step looks at it.
-/

namespace XzmjxRpc
namespace Registry

/-- A connected session: its peer and the locals of its `handleClient`. -/
structure Session where
  peer : Option IPv4Address
  locals : Locals := {}
  registered : List (Bytes × Bytes) := []

/-- The registry and its connected sessions. -/
structure State where
  sessions : Nat → Option Session
  registry : Registry

/-- A registry that nobody is connected to. -/
def init : State := ⟨fun _ => none, empty⟩

/-- What can happen next. -/
inductive Action where
  | accept (i : Nat) (peer : Option IPv4Address)
  | receive (i : Nat) (req : Protocol)
  | disconnect (i : Nat)

/-- The session that takes the step. -/
def Action.session : Action → Nat
  | .accept i _ => i
  | .receive i _ => i
  | .disconnect i => i

namespace State

/-- Session `i` becomes `k`. -/
def setSession (s : State) (i : Nat) (k : Option Session) : State :=
  { s with sessions := Function.update s.sessions i k }

@[simp] theorem setSession_registry (s : State) (i : Nat) (k : Option Session) :
    (s.setSession i k).registry = s.registry := rfl

@[simp] theorem setSession_sessions_self (s : State) (i : Nat) (k : Option Session) :
    (s.setSession i k).sessions i = k := Function.update_self ..

@[simp] theorem setSession_sessions_of_ne (s : State) {i j : Nat} (h : j ≠ i)
    (k : Option Session) : (s.setSession i k).sessions j = s.sessions j :=
  Function.update_of_ne h ..

/-- The sessions after one has changed. -/
theorem setSession_eq_some {s : State} {i j : Nat} {o : Option Session} {k : Session} :
    (s.setSession i o).sessions j = some k ↔
      (j = i ∧ o = some k) ∨ (j ≠ i ∧ s.sessions j = some k) := by
  by_cases h : j = i
  · subst h
    simp
  · simp [h]

end State

section
variable [Machine]

/-- The session after it has handled a message. -/
def Session.after (k : Session) (req : Protocol) : Session where
  peer := k.peer
  locals := localsAfter k.peer req k.locals
  registered := k.registered ++ added req k.locals

/-- One step of the registry. -/
inductive Step : State → Action → State → Prop
  /-- A client connects, and its `handleClient` starts. -/
  | accept {s : State} {i : Nat} (peer : Option IPv4Address) (hi : s.sessions i = none) :
      Step s (.accept i peer) (s.setSession i (some { peer := peer }))
  /-- One round of a session's loop. -/
  | receive {s : State} {i : Nat} {req : Protocol} {k : Session} {rsp : Option Protocol}
      {l : Locals} {r : Registry} (hk : s.sessions i = some k)
      (h : handleMessage k.peer req k.locals s.registry = .ok (rsp, l, r)) :
      Step s (.receive i req)
        { s.setSession i (some { k with
            locals := l
            registered := k.registered ++ added req k.locals }) with
          registry := r }
  /-- The last round of a session's loop. -/
  | disconnect {s : State} {i : Nat} {k : Session} {r : Registry} (hk : s.sessions i = some k)
      (h : handleEnd k.locals s.registry = .ok r) :
      Step s (.disconnect i) { s.setSession i none with registry := r }

/-! ## what a step does -/

/-- The other sessions are as before. -/
theorem Step.sessions_of_ne {s t : State} {a : Action} (h : Step s a t) {j : Nat}
    (hj : j ≠ a.session) : t.sessions j = s.sessions j := by
  cases h with
  | accept => exact State.setSession_sessions_of_ne _ hj _
  | receive => exact State.setSession_sessions_of_ne _ hj _
  | disconnect => exact State.setSession_sessions_of_ne _ hj _

/-- Everything a step can do, from a registry whose maps agree. -/
theorem Step.inv {s t : State} {a : Action} (hs : s.registry.Agree) (h : Step s a t) :
    (∃ i peer, a = .accept i peer ∧ s.sessions i = none ∧
      t = s.setSession i (some { peer := peer })) ∨
    (∃ i req k, a = .receive i req ∧ s.sessions i = some k ∧
      t = { s.setSession i (some (k.after req)) with
        registry := s.registry.addAll (added req k.locals) }) ∨
    (∃ i k, a = .disconnect i ∧ s.sessions i = some k ∧ k.locals.isServiceProvider = true ∧
      t = { s.setSession i none with registry := s.registry.without k.locals.providerAddr }) := by
  cases h with
  | accept peer hi => exact .inl ⟨_, peer, rfl, hi, rfl⟩
  | receive hk h =>
      obtain ⟨-, rfl, rfl⟩ := handleMessage_inv h
      exact .inr (.inl ⟨_, _, _, rfl, hk, rfl⟩)
  | @disconnect i k r hk h =>
      unfold handleEnd at h
      split at h
      · next hflag =>
        rw [hs.unregisterService_eq] at h
        split at h <;> cases h
        exact .inr (.inr ⟨_, _, rfl, hk, hflag, rfl⟩)
      · cases h

theorem agree_of_step {s t : State} {a : Action} (hs : s.registry.Agree) (h : Step s a t) :
    t.registry.Agree := by
  rcases h.inv hs with ⟨i, peer, -, -, rfl⟩ | ⟨i, req, k, -, -, rfl⟩ | ⟨i, k, -, -, -, rfl⟩
  · exact hs
  · exact hs.addAll _
  · exact hs.without _

/-- The maps agree in every run. -/
theorem agree_of_steps {s : State} {as : List Action} (h : Lts.Run Step init as s) :
    s.registry.Agree :=
  Lts.Run.invariant (I := fun s => s.registry.Agree) agree_empty
    (fun _ _ _ hs hstep => agree_of_step hs hstep) h

/-! ## a session on its own -/

/-- The messages of a session that is alone, one step each. -/
theorem run_of_handleRounds {i : Nat} {msgs : List Protocol} {s : State} {k : Session}
    (hk : s.sessions i = some k) {rsps : List Protocol} {r : Registry}
    (h : handleRounds k.peer msgs k.locals s.registry = .ok (rsps, r)) :
    ∃ t, Lts.Run Step s (msgs.map (.receive i) ++ [.disconnect i]) t ∧ t.registry = r ∧
      t.sessions = Function.update s.sessions i none := by
  induction msgs generalizing s k rsps with
  | nil =>
      rw [handleRounds] at h
      cases hend : handleEnd k.locals s.registry with
      | error e => simp [hend, Except.map] at h
      | ok r' =>
          simp only [hend, Except.map, Except.ok.injEq, Prod.mk.injEq] at h
          exact ⟨_, .single (.disconnect hk hend), h.2, rfl⟩
  | cons req msgs ih =>
      rw [handleRounds] at h
      cases hmsg : handleMessage k.peer req k.locals s.registry with
      | error e => simp [hmsg, bind, Except.bind] at h
      | ok out =>
          obtain ⟨rsp, l, r₁⟩ := out
          cases hrest : handleRounds k.peer msgs l r₁ with
          | error e => simp [hmsg, hrest, bind, Except.bind] at h
          | ok out' =>
              obtain ⟨rsps', r₂⟩ := out'
              simp only [hmsg, hrest, bind, Except.bind, pure, Except.pure, Except.ok.injEq,
                Prod.mk.injEq] at h
              obtain ⟨-, rfl⟩ := h
              obtain ⟨t, hrun, hreg, hsess⟩ := ih
                (s := { s.setSession i (some { k with
                    locals := l
                    registered := k.registered ++ added req k.locals }) with
                  registry := r₁ }) (State.setSession_sessions_self ..) hrest
              refine ⟨t, (Lts.Run.single (.receive hk hmsg)).append hrun, hreg, ?_⟩
              rw [hsess]
              exact Function.update_idem ..

/-- `handleClient` is a run of the registry in which nobody else does anything. -/
theorem run_of_handleClient {i : Nat} {peer : Option IPv4Address} {msgs : List Protocol}
    {s : State} (hi : s.sessions i = none) {rsps : List Protocol} {r : Registry}
    (h : handleClient peer msgs s.registry = .ok (rsps, r)) :
    Lts.Run Step s (.accept i peer :: (msgs.map (.receive i) ++ [.disconnect i]))
      { s with registry := r } := by
  obtain ⟨t, hrun, hreg, hsess⟩ := run_of_handleRounds
    (s := s.setSession i (some { peer := peer })) (State.setSession_sessions_self ..) h
  have ht : t = { s with registry := r } := by
    obtain ⟨sessions, registry⟩ := t
    simp only at hreg hsess
    subst hreg hsess
    have hsame : Function.update (s.setSession i (some { peer := peer })).sessions i none =
        s.sessions := by
      rw [State.setSession, Function.update_idem, ← hi, Function.update_eq_self]
    rw [hsame]
  exact ht ▸ (Lts.Run.single (.accept peer hi)).append hrun

end

end Registry
end XzmjxRpc
