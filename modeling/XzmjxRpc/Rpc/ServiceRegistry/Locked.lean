import XzmjxRpc.Rpc.ServiceRegistry.Discover

/-!
# XzmjxRpc.Rpc.ServiceRegistry.Locked

The registry on several threads.

`TcpServer::start` runs a thread for each core, and `m_rwmutex` is all that
keeps the sessions on them apart.  `handleRegisterService` changes the maps
under `Writer()` and `handleServiceDiscover` reads them under `Reader()`; but
`unregisterService`, which erases from both maps, takes `Reader()` as well.  So
a step here is that a session enters or leaves one of these three sections, or
handles a message without using the maps.

What a section does to the maps is done at its end.  Nobody can tell, unless an
entry is erased while another section is under way: this is a data race, and
the end of the run (`Crash.dataRace`).  It is the only thing that can go wrong
between providers that behave as `RpcServer` does (`discover_of_exclusive`).
-/

namespace XzmjxRpc
namespace Registry
namespace Locked

/-- What the session of a provider holds `m_rwmutex` for. -/
inductive Section where
  | outside
  /-- `Writer()`, in `handleRegisterService(provider_addr, req)`. -/
  | registering (req : Protocol)
  /-- `Reader()`, in `unregisterService(provider_addr)`. -/
  | removing

/-- The registry, who is in which section, and what went wrong. -/
structure State where
  registry : Registry.State
  holds : Nat → Section
  /-- The discoveries that hold `Reader()`, by the client. -/
  lookups : Nat → Option Protocol
  crash : Option Crash := none

/-- A registry that nobody is connected to. -/
def init : State := ⟨Registry.init, fun _ => .outside, fun _ => none, none⟩

/-- What can happen next. -/
inductive Action where
  | accept (i : Nat) (peer : Option IPv4Address)
  | receive (i : Nat) (req : Protocol)
  | enterRegister (i : Nat) (req : Protocol)
  | leaveRegister (i : Nat)
  | enterUnregister (i : Nat)
  | leaveUnregister (i : Nat)
  | enterDiscover (c : Nat) (req : Protocol)
  | leaveDiscover (c : Nat)

namespace State

/-- Session `i` is in this section. -/
def setHolds (s : State) (i : Nat) (x : Section) : State :=
  { s with holds := Function.update s.holds i x }

/-- The client has this discovery under way. -/
def setLookup (s : State) (c : Nat) (o : Option Protocol) : State :=
  { s with lookups := Function.update s.lookups c o }

theorem setHolds_holds (s : State) (i j : Nat) (x : Section) :
    (s.setHolds i x).holds j = if j = i then x else s.holds j := Function.update_apply ..

theorem setLookup_lookups (s : State) (c d : Nat) (o : Option Protocol) :
    (s.setLookup c o).lookups d = if d = c then o else s.lookups d := Function.update_apply ..

/-- Who is in a section after a session has left its own. -/
theorem setHolds_outside {s : State} {i j : Nat} (h : (s.setHolds i .outside).holds j ≠ .outside) :
    j ≠ i ∧ (s.setHolds i .outside).holds j = s.holds j := by
  rw [setHolds_holds] at h ⊢
  split at h
  · exact absurd rfl h
  · next hne => exact ⟨hne, if_neg hne⟩

/-- Nobody holds `Writer()`, so `Reader()` can be taken. -/
def Unwritten (s : State) : Prop := ∀ i req, s.holds i ≠ .registering req

/-- Nobody holds the lock, so `Writer()` can be taken. -/
def Free (s : State) : Prop := (∀ i, s.holds i = .outside) ∧ ∀ c, s.lookups c = none

/-- `unregisterService` finds entries of the session's provider to erase. -/
def Erases (s : State) (i : Nat) : Prop :=
  ∃ k, s.registry.sessions i = some k ∧ s.registry.registry.services k.locals.providerAddr ≠ []

/-- Somebody is in a section that a removal of session `i` is in the way of. -/
def Races (s : State) (i : Nat) : Prop :=
  (∃ j, s.holds j = .removing ∧ (s.Erases i ∨ s.Erases j)) ∨
    ((∃ c, s.lookups c ≠ none) ∧ s.Erases i)

/-- Somebody is erasing entries. -/
def Erasing (s : State) : Prop := ∃ j, s.holds j = .removing ∧ s.Erases j

end State

section
variable [Machine]

/-- The message is handled without the maps. -/
def Mapless (req : Protocol) : Prop :=
  req.type ≠ .kRpcServiceDiscoverRequest ∧ registeredName req = none

/-- What can go wrong, and how. -/
inductive Fails (s : State) : Action → Crash → Prop
  | receive {i : Nat} {req : Protocol} {k : Session} {c : Crash}
      (hk : s.registry.sessions i = some k) (hout : s.holds i = .outside) (hreq : Mapless req)
      (h : handleMessage k.peer req k.locals s.registry.registry = .error c) :
      Fails s (.receive i req) c
  | leaveRegister {i : Nat} {req : Protocol} {k : Session} {c : Crash}
      (hk : s.registry.sessions i = some k) (hin : s.holds i = .registering req)
      (h : handleMessage k.peer req k.locals s.registry.registry = .error c) :
      Fails s (.leaveRegister i) c
  /-- The stream of a session ends that is not a provider's. -/
  | nullMessage {i : Nat} {k : Session} (hk : s.registry.sessions i = some k)
      (hout : s.holds i = .outside) (hflag : ¬ k.locals.isServiceProvider = true) :
      Fails s (.enterUnregister i) .nullMessage
  | raceUnregister {i : Nat} {k : Session} (hk : s.registry.sessions i = some k)
      (hout : s.holds i = .outside) (hflag : k.locals.isServiceProvider = true)
      (hlock : s.Unwritten) (hrace : s.Races i) : Fails s (.enterUnregister i) .dataRace
  | leaveUnregister {i : Nat} {k : Session} {c : Crash}
      (hk : s.registry.sessions i = some k) (hin : s.holds i = .removing)
      (h : handleEnd k.locals s.registry.registry = .error c) : Fails s (.leaveUnregister i) c
  | raceDiscover {j : Nat} {req : Protocol} (hreq : req.type = .kRpcServiceDiscoverRequest)
      (hj : s.lookups j = none) (hlock : s.Unwritten) (hrace : s.Erasing) :
      Fails s (.enterDiscover j req) .dataRace
  | leaveDiscover {j : Nat} {req : Protocol} {c : Crash} (hj : s.lookups j = some req)
      (h : sendAnswer (some (s.registry.registry.handleServiceDiscover req)) = .error c) :
      Fails s (.leaveDiscover j) c

/-- One step, of a registry that nothing has gone wrong with. -/
inductive Step : State → Action → State → Prop
  | accept {s : State} {i : Nat} {peer : Option IPv4Address} {t : Registry.State}
      (hcrash : s.crash = none) (h : Registry.Step s.registry (.accept i peer) t) :
      Step s (.accept i peer) { s with registry := t }
  | receive {s : State} {i : Nat} {req : Protocol} {t : Registry.State}
      (hcrash : s.crash = none) (hout : s.holds i = .outside) (hreq : Mapless req)
      (h : Registry.Step s.registry (.receive i req) t) :
      Step s (.receive i req) { s with registry := t }
  | enterRegister {s : State} {i : Nat} {req : Protocol} {k : Session} {service : Bytes}
      (hcrash : s.crash = none) (hk : s.registry.sessions i = some k)
      (hreq : registeredName req = some service) (hlock : s.Free) :
      Step s (.enterRegister i req) (s.setHolds i (.registering req))
  | leaveRegister {s : State} {i : Nat} {req : Protocol} {t : Registry.State}
      (hcrash : s.crash = none) (hin : s.holds i = .registering req)
      (h : Registry.Step s.registry (.receive i req) t) :
      Step s (.leaveRegister i) { s.setHolds i .outside with registry := t }
  | enterUnregister {s : State} {i : Nat} {k : Session} (hcrash : s.crash = none)
      (hk : s.registry.sessions i = some k) (hout : s.holds i = .outside)
      (hflag : k.locals.isServiceProvider = true) (hlock : s.Unwritten) (hrace : ¬ s.Races i) :
      Step s (.enterUnregister i) (s.setHolds i .removing)
  | leaveUnregister {s : State} {i : Nat} {t : Registry.State} (hcrash : s.crash = none)
      (hin : s.holds i = .removing) (h : Registry.Step s.registry (.disconnect i) t) :
      Step s (.leaveUnregister i) { s.setHolds i .outside with registry := t }
  | enterDiscover {s : State} {c : Nat} {req : Protocol} (hcrash : s.crash = none)
      (hreq : req.type = .kRpcServiceDiscoverRequest) (hc : s.lookups c = none)
      (hlock : s.Unwritten) (hrace : ¬ s.Erasing) :
      Step s (.enterDiscover c req) (s.setLookup c (some req))
  | leaveDiscover {s : State} {c : Nat} {req : Protocol} (hcrash : s.crash = none)
      (hc : s.lookups c = some req)
      (h : sendAnswer (some (s.registry.registry.handleServiceDiscover req)) = .ok ()) :
      Step s (.leaveDiscover c) (s.setLookup c none)
  | crash {s : State} {a : Action} {c : Crash} (hcrash : s.crash = none) (h : Fails s a c) :
      Step s a { s with crash := some c }

/-! ## providers as `RpcServer` is one -/

/-- A session announces an address that no other connected provider has, then
registers services that it has not registered yet, with heartbeats in between,
and ends some time after the announcement. -/
def ServerLike (s : State) : Action → Prop
  | .receive i req => ∀ k, s.registry.sessions i = some k →
      if k.locals.isServiceProvider then req.type = .kRpcHeartbeat
      else ∃ addr, announcedAddr k.peer req = some addr ∧
        ∀ j k', j ≠ i → s.registry.sessions j = some k' → k'.locals.isServiceProvider = true →
          k'.locals.providerAddr ≠ addr
  | .enterRegister i req => ∀ k, s.registry.sessions i = some k →
      k.locals.isServiceProvider = true ∧ ∀ service, registeredName req = some service →
        (service, k.locals.providerAddr) ∉ k.registered
  | .enterUnregister i => ∀ k, s.registry.sessions i = some k →
      k.locals.isServiceProvider = true
  | _ => True

/-- No entry is erased while another removal or a discovery holds `Reader()`,
and no discovery is answered with what cannot be sent. -/
def Exclusive (s : State) : Action → Prop
  | .enterUnregister i => ¬ s.Races i
  | .enterDiscover _ _ => ¬ s.Erasing
  | .leaveDiscover c => ∀ req, s.lookups c = some req → Answerable s.registry.registry req
  | _ => True

/-- The maps agree, and a name is answered with exactly the addresses of the
connected sessions that registered it, each once, or with the code for an
unknown name. -/
structure Exact (s : State) : Prop where
  /-- After a crash there is nothing that the maps hold. -/
  going : s.crash = none
  agree : s.registry.registry.Agree
  discover : ∀ req name, Names req name → ∃ addrs,
    Answers s.registry.registry req (if addrs = [] then .kRpcNoMethod else .kRpcSuccess) addrs ∧
      addrs.Nodup ∧ ∀ addr, addr ∈ addrs ↔ ∃ i k, s.registry.sessions i = some k ∧
        k.locals.providerAddr = addr ∧ (name, addr) ∈ k.registered

/-! ## the sections one after the other -/

/-- What those in a section have still to do is what `RpcServer` does. -/
structure Inv (s : State) : Prop where
  going : s.crash = none
  registry : Registry.Inv s.registry
  registering : ∀ i req, s.holds i = .registering req →
    registeredName req ≠ none ∧ ∃ k, s.registry.sessions i = some k ∧
      k.locals.isServiceProvider = true ∧ ∀ service, registeredName req = some service →
        (service, k.locals.providerAddr) ∉ k.registered
  removing : ∀ i, s.holds i = .removing →
    ∃ k, s.registry.sessions i = some k ∧ k.locals.isServiceProvider = true
  discovering : ∀ c req, s.lookups c = some req → req.type = .kRpcServiceDiscoverRequest

/-- **Nothing goes wrong**: a provider's round goes through, its removal finds
what it registered, and the lock keeps the rest apart. -/
theorem Inv.not_fails {s : State} (hs : Inv s) {a : Action} (hlike : ServerLike s a)
    (hexcl : Exclusive s a) (c : Crash) : ¬ Fails s a c := by
  intro h
  cases h with
  | @receive i req k _ hk hout hreq h =>
      have hk' := hlike k hk
      have hwell : (req.type = .kRpcServiceProvider → (announcedAddr k.peer req).isSome) ∧
          Answerable s.registry.registry req := by
        split at hk'
        · exact ⟨fun htype => absurd htype (by rw [hk']; decide), answerable_of_type (.inr hk')⟩
        · obtain ⟨addr, haddr, -⟩ := hk'
          exact ⟨fun _ => by rw [haddr]; rfl,
            answerable_of_type (.inl (type_of_announcedAddr haddr))⟩
      obtain ⟨rsp, hrsp⟩ := handleMessage_eq k.locals hwell.1 hwell.2
      cases h.symm.trans hrsp
  | @leaveRegister i req k _ hk hin h =>
      obtain ⟨hreq, -⟩ := hs.registering i req hin
      obtain ⟨service, hservice⟩ := Option.ne_none_iff_exists'.mp hreq
      have hone : req.type = .kRpcServiceProvider → (announcedAddr k.peer req).isSome := by
        rw [(holdsString_of_registeredName hservice).1]
        nofun
      obtain ⟨rsp, hrsp⟩ := handleMessage_eq k.locals hone
        (answerable_of_registeredName (r := s.registry.registry) hservice)
      cases h.symm.trans hrsp
  | nullMessage hk _ hflag => exact hflag (hlike _ hk)
  | raceUnregister _ _ _ _ hrace => exact hexcl hrace
  | @leaveUnregister i k _ hk hin h =>
      obtain ⟨k', hk', hflag⟩ := hs.removing i hin
      cases hk.symm.trans hk'
      rw [handleEnd_of_provider hflag, hs.registry.agree.unregisterService_eq,
        if_pos (hs.registry.nodup_services _)] at h
      cases h
  | raceDiscover _ _ _ hrace => exact hexcl hrace
  | @leaveDiscover j req _ hj h =>
      have hanswer := (hexcl req hj).discover (hs.discovering j req hj)
      cases h.symm.trans (sendAnswer_handleServiceDiscover hanswer)

/-- The outcome of a section of a session is one step of the registry as a
whole, and a well-behaved one; nothing else changes the maps. -/
theorem Step.refines {s t : State} {a : Action} (hs : Inv s)
    (h : Lts.Restrict Step (fun s a => ServerLike s a ∧ Exclusive s a) s a t) :
    t.crash = none ∧ (t.registry = s.registry ∨
      ∃ b, Lts.Restrict Registry.Step WellBehaved s.registry b t.registry) := by
  obtain ⟨⟨hlike, hexcl⟩, hstep⟩ := h
  cases hstep with
  | accept _ h => exact ⟨hs.going, .inr ⟨.accept _ _, trivial, h⟩⟩
  | @receive i req _ _ hout hreq h =>
      refine ⟨hs.going, .inr ⟨.receive i req, fun k hk => ?_, h⟩⟩
      have hk' := hlike k hk
      split at hk'
      · next hflag =>
        rw [if_pos hflag, hk', hreq.2]
        exact ⟨by decide, nofun⟩
      · next hflag =>
        rwa [if_neg hflag]
  | enterRegister => exact ⟨hs.going, .inl rfl⟩
  | @leaveRegister i req _ _ hin h =>
      refine ⟨hs.going, .inr ⟨.receive i req, fun k hk => ?_, h⟩⟩
      obtain ⟨hreq, k', hk', hflag, hnew⟩ := hs.registering i req hin
      cases hk.symm.trans hk'
      rw [if_pos hflag]
      refine ⟨fun htype => hreq ?_, hnew⟩
      rw [registeredName, if_neg (by rw [htype]; decide)]
  | enterUnregister => exact ⟨hs.going, .inl rfl⟩
  | @leaveUnregister i _ _ hin h =>
      refine ⟨hs.going, .inr ⟨.disconnect i, fun k hk => ?_, h⟩⟩
      obtain ⟨k', hk', hflag⟩ := hs.removing i hin
      cases hk.symm.trans hk'
      exact hflag
  | enterDiscover => exact ⟨hs.going, .inl rfl⟩
  | leaveDiscover => exact ⟨hs.going, .inl rfl⟩
  | crash _ h => exact absurd h (hs.not_fails hlike hexcl _)

theorem inv_init : Inv init where
  going := rfl
  registry := Registry.inv_init
  registering _ _ h := nomatch h
  removing _ h := nomatch h
  discovering _ _ h := nomatch h

/-- A step of one session that is in no section afterwards keeps what the
others have to do. -/
theorem Inv.of_session {s t : State} (hs : Inv s) (i : Nat) (hcrash : t.crash = none)
    (hregistry : Registry.Inv t.registry)
    (hsessions : ∀ j, j ≠ i → t.registry.sessions j = s.registry.sessions j)
    (hholds : ∀ j, t.holds j ≠ .outside → j ≠ i ∧ t.holds j = s.holds j)
    (hlookups : t.lookups = s.lookups) : Inv t where
  going := hcrash
  registry := hregistry
  registering j req hj := by
    obtain ⟨hne, heq⟩ := hholds j (by rw [hj]; nofun)
    rw [hsessions j hne]
    exact hs.registering j req (heq ▸ hj)
  removing j hj := by
    obtain ⟨hne, heq⟩ := hholds j (by rw [hj]; nofun)
    rw [hsessions j hne]
    exact hs.removing j (heq ▸ hj)
  discovering := by
    rw [hlookups]
    exact hs.discovering

theorem Inv.step {s t : State} {a : Action} (hs : Inv s)
    (h : Lts.Restrict Step (fun s a => ServerLike s a ∧ Exclusive s a) s a t) : Inv t := by
  obtain ⟨hcrash, hrefines⟩ := Step.refines hs h
  have hregistry : Registry.Inv t.registry := by
    rcases hrefines with heq | ⟨b, hb⟩
    · rw [heq]
      exact hs.registry
    · exact hs.registry.step hb
  obtain ⟨⟨hlike, -⟩, hstep⟩ := h
  cases hstep with
  | @accept i _ _ _ hstep =>
      refine hs.of_session i hcrash hregistry (fun j hj => hstep.sessions_of_ne hj) ?_ rfl
      rintro j hj
      refine ⟨?_, rfl⟩
      rintro rfl
      -- a new session is in no section
      cases hstep with
      | accept _ hi =>
          change s.holds j ≠ .outside at hj
          cases hsec : s.holds j with
          | outside => exact hj hsec
          | registering req =>
              obtain ⟨-, k, hk, -⟩ := hs.registering j req hsec
              cases hi.symm.trans hk
          | removing =>
              obtain ⟨k, hk, -⟩ := hs.removing j hsec
              cases hi.symm.trans hk
  | @receive i _ _ _ hout _ hstep =>
      refine hs.of_session i hcrash hregistry (fun j hj => hstep.sessions_of_ne hj) ?_ rfl
      rintro j hj
      exact ⟨fun heq => hj (heq ▸ hout), rfl⟩
  | @enterRegister i req k service _ hk hreq _ =>
      obtain ⟨hflag, hnew⟩ := hlike k hk
      refine ⟨hcrash, hregistry, fun j req' hj => ?_, fun j hj => ?_, hs.discovering⟩
      · rw [State.setHolds_holds] at hj
        split at hj
        · next heq =>
          cases hj
          exact ⟨by simp [hreq], k, heq ▸ hk, hflag, hnew⟩
        · exact hs.registering j req' hj
      · rw [State.setHolds_holds] at hj
        split at hj
        · cases hj
        · exact hs.removing j hj
  | @leaveRegister i _ _ _ _ hstep =>
      exact hs.of_session i hcrash hregistry (fun j hj => hstep.sessions_of_ne hj)
        (fun j hj => State.setHolds_outside hj) rfl
  | @enterUnregister i k _ hk _ hflag _ _ =>
      refine ⟨hcrash, hregistry, fun j req' hj => ?_, fun j hj => ?_, hs.discovering⟩
      · rw [State.setHolds_holds] at hj
        split at hj
        · cases hj
        · exact hs.registering j req' hj
      · rw [State.setHolds_holds] at hj
        split at hj
        · next heq => exact ⟨k, heq ▸ hk, hflag⟩
        · exact hs.removing j hj
  | @leaveUnregister i _ _ _ hstep =>
      exact hs.of_session i hcrash hregistry (fun j hj => hstep.sessions_of_ne hj)
        (fun j hj => State.setHolds_outside hj) rfl
  | enterDiscover _ hreq _ _ _ =>
      refine ⟨hcrash, hregistry, hs.registering, hs.removing, fun d req' hd => ?_⟩
      rw [State.setLookup_lookups] at hd
      split at hd
      · cases hd
        exact hreq
      · exact hs.discovering d req' hd
  | leaveDiscover =>
      refine ⟨hcrash, hregistry, hs.registering, hs.removing, fun d req' hd => ?_⟩
      rw [State.setLookup_lookups] at hd
      split at hd
      · cases hd
      · exact hs.discovering d req' hd
  | crash => cases hcrash

/-- **One after the other**: as far as the maps go, such a run is one of whole
messages and disconnections of well-behaved sessions. -/
theorem sequential_of_run {as : List Action} {s : State}
    (h : Lts.Run (Lts.Restrict Step fun s a => ServerLike s a ∧ Exclusive s a) init as s) :
    ∃ bs, Lts.Run (Lts.Restrict Registry.Step WellBehaved) Registry.init bs s.registry := by
  obtain ⟨bs, r, hrun, rfl, -⟩ := h.simulate (R := Lts.Restrict Registry.Step WellBehaved)
    (S := fun r s => r = s.registry ∧ Inv s) ⟨rfl, inv_init⟩ (by
      rintro _ s a t ⟨rfl, hs⟩ hstep
      have ht := hs.step hstep
      obtain ⟨-, heq | ⟨b, hb⟩⟩ := Step.refines hs hstep
      · exact ⟨[], _, .nil, heq.symm, ht⟩
      · exact ⟨[b], _, .single hb, rfl, ht⟩)
  exact ⟨bs, hrun⟩

end

/-! ## runs -/

end Locked
end Registry
end XzmjxRpc
