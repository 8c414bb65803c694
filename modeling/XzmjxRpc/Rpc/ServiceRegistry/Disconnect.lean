import XzmjxRpc.Rpc.ServiceRegistry.Send
import XzmjxRpc.Rpc.ServiceRegistry.Unregister

/-!
# XzmjxRpc.Rpc.ServiceRegistry.Disconnect

One session from its first message to its end.

What a session does is a function of its messages: which address is announced
last, and which pairs are registered (`lastAddr`, `registrations`).  An answer
that cannot be sent ends it on the way.  At the end the loop is left only if
something was announced, and then what is removed is what stands under the
last address.  So a peer that announces nothing brings the registry down when
it disconnects (`leaves_iff`), and what it registered before its last
announcement, for another address, is never removed (`cleansUp_iff`).
-/

namespace XzmjxRpc
namespace Registry

/-! ## adding several pairs -/

/-- Add pairs one after the other. -/
def addAll (r : Registry) (ps : List (Bytes × Bytes)) : Registry where
  servicesProvider := r.servicesProvider.emplaceAll ps
  addressToService := r.addressToService.emplaceAll (ps.map Prod.swap)

theorem Agree.addAll {r : Registry} (h : r.Agree) (ps : List (Bytes × Bytes)) :
    (r.addAll ps).Agree := by
  rw [Agree, Registry.addAll, Multimap.pairs_emplaceAll, Multimap.pairs_emplaceAll, List.map_append]
  exact List.Perm.append_right _ h

section
variable [Machine]

/-- The address that a message announces. -/
def announcedAddr (peer : Option IPv4Address) (req : Protocol) : Option Bytes :=
  if req.type = .kRpcServiceProvider then (handleProvider peer req).toOption else none

/-- The service that a message registers. -/
def registeredName (req : Protocol) : Option Bytes :=
  if req.type = .kRpcServiceRegisterRequest then serviceName req else none

/-- The locals after a message. -/
def localsAfter (peer : Option IPv4Address) (req : Protocol) (l : Locals) : Locals :=
  match announcedAddr peer req with
  | some addr => ⟨true, addr⟩
  | none => l

/-- The pair that a message adds, if any. -/
def added (req : Protocol) (l : Locals) : List (Bytes × Bytes) :=
  ((registeredName req).map fun service => (service, l.providerAddr)).toList

theorem type_of_announcedAddr {peer : Option IPv4Address} {req : Protocol} {addr : Bytes}
    (h : announcedAddr peer req = some addr) : req.type = .kRpcServiceProvider := by
  by_contra hne
  rw [announcedAddr, if_neg hne] at h
  cases h

theorem localsAfter_of_announced {peer : Option IPv4Address} {req : Protocol} {addr : Bytes}
    (h : announcedAddr peer req = some addr) (l : Locals) :
    localsAfter peer req l = ⟨true, addr⟩ := by
  rw [localsAfter, h]

theorem localsAfter_of_ne {peer : Option IPv4Address} {req : Protocol}
    (h : req.type ≠ .kRpcServiceProvider) (l : Locals) : localsAfter peer req l = l := by
  rw [localsAfter, announcedAddr, if_neg h]

/-- An announcement adds nothing. -/
theorem added_of_provider {req : Protocol} (h : req.type = .kRpcServiceProvider) (l : Locals) :
    added req l = [] := by
  rw [added, registeredName, if_neg (by rw [h]; decide)]
  rfl

theorem added_of_registeredName {req : Protocol} {service : Bytes}
    (h : registeredName req = some service) (l : Locals) :
    added req l = [(service, l.providerAddr)] := by
  rw [added, h]
  rfl

/-- An announcement that is accepted sets the locals, a registration adds its
pair, and nothing else changes anything. -/
theorem dispatch_eq {peer : Option IPv4Address} {req : Protocol} (l : Locals) (r : Registry)
    (h : req.type = .kRpcServiceProvider → (announcedAddr peer req).isSome) :
    ∃ rsp, dispatch peer req l r =
      .ok (rsp, localsAfter peer req l, r.addAll (added req l)) := by
  unfold dispatch
  by_cases hprovider : req.type = .kRpcServiceProvider
  · have hadded := added_of_provider hprovider l
    have hsome := h hprovider
    rw [announcedAddr, if_pos hprovider] at hsome
    cases haddr : handleProvider peer req with
    | error e => simp [haddr, Except.toOption] at hsome
    | ok addr =>
        have hlocals : localsAfter peer req l = ⟨true, addr⟩ := by
          apply localsAfter_of_announced
          rw [announcedAddr, if_pos hprovider, haddr]
          rfl
        rw [if_neg (by rw [hprovider]; decide), if_neg (by rw [hprovider]; decide),
          if_pos hprovider, hadded, hlocals]
        exact ⟨none, rfl⟩
  · rw [localsAfter_of_ne hprovider, if_neg hprovider]
    by_cases hregister : req.type = .kRpcServiceRegisterRequest
    · rw [if_neg (by rw [hregister]; decide), if_neg (by rw [hregister]; decide),
        if_pos hregister]
      refine ⟨some (r.handleRegisterService l.providerAddr req).1, ?_⟩
      have hsnd := r.handleRegisterService_snd l.providerAddr req
      have hadd : r.addAll (added req l) = (r.handleRegisterService l.providerAddr req).2 := by
        rw [hsnd, added, registeredName, if_pos hregister]
        cases serviceName req <;> rfl
      rw [hadd]
    · have hadded : added req l = [] := by
        rw [added, registeredName, if_neg hregister]
        rfl
      rw [if_neg hregister, hadded]
      split
      · exact ⟨_, rfl⟩
      · split <;> exact ⟨_, rfl⟩

/-- An announcement that is not accepted ends the loop with an exception or
with a null address. -/
theorem dispatch_error {peer : Option IPv4Address} {req : Protocol} (l : Locals) (r : Registry)
    (htype : req.type = .kRpcServiceProvider) (h : ¬ (announcedAddr peer req).isSome) :
    ∃ e, dispatch peer req l r = .error e := by
  rw [announcedAddr, if_pos htype] at h
  unfold dispatch
  rw [if_neg (by rw [htype]; decide), if_neg (by rw [htype]; decide), if_pos htype]
  cases haddr : handleProvider peer req with
  | error e => exact ⟨e, rfl⟩
  | ok addr => simp [haddr, Except.toOption] at h

/-- A round goes through when its answer is sent. -/
theorem handleMessage_eq_ok_iff {peer : Option IPv4Address} {req : Protocol} {l : Locals}
    {r : Registry} {out : Option Protocol × Locals × Registry} :
    handleMessage peer req l r = .ok out ↔
      dispatch peer req l r = .ok out ∧ sendAnswer out.1 = .ok () := by
  unfold handleMessage
  cases dispatch peer req l r with
  | error e => simp [bind, Except.bind]
  | ok out' =>
      simp only [bind, Except.bind, pure, Except.pure, Except.ok.injEq]
      cases hsend : sendAnswer out'.1 with
      | error e =>
          refine iff_of_false nofun ?_
          rintro ⟨rfl, hok⟩
          cases hsend.symm.trans hok
      | ok _ =>
          simp only [Except.ok.injEq, iff_self_and]
          rintro rfl
          exact hsend

/-- What is registered is the name that the request carries. -/
theorem serviceName_eq_some_iff {req : Protocol} {service : Bytes} :
    serviceName req = some service ↔ Names req service := by
  unfold serviceName
  constructor
  · intro h
    split at h
    · cases h
    · split at h
      · cases h
      · next s hs =>
        cases h
        exact ⟨s, hs⟩
  · rintro ⟨s, hs⟩
    rw [if_neg (Names.payload_ne_nil ⟨s, hs⟩), hs]

/-- What adds a pair is a registration with a name. -/
theorem holdsString_of_registeredName {req : Protocol} {service : Bytes}
    (h : registeredName req = some service) :
    req.type = .kRpcServiceRegisterRequest ∧ HoldsString req.payload := by
  unfold registeredName at h
  split at h
  · next htype =>
    exact ⟨htype, exists_names_iff.mp ⟨service, serviceName_eq_some_iff.mp h⟩⟩
  · cases h

/-- So its answer can be sent. -/
theorem answerable_of_registeredName {r : Registry} {req : Protocol} {service : Bytes}
    (h : registeredName req = some service) : Answerable r req := by
  obtain ⟨htype, hholds⟩ := holdsString_of_registeredName h
  refine ⟨fun _ => .inr hholds, ?_⟩
  rw [htype]
  nofun

/-- Announcements have no answer, and heartbeats have one that can. -/
theorem answerable_of_type {r : Registry} {req : Protocol}
    (h : req.type = .kRpcServiceProvider ∨ req.type = .kRpcHeartbeat) : Answerable r req := by
  rcases h with h | h <;> (constructor <;> (rw [h]; nofun))

/-- **One round** of a message that is accepted, with an answer that can be sent. -/
theorem handleMessage_eq {peer : Option IPv4Address} {req : Protocol} (l : Locals) {r : Registry}
    (h : req.type = .kRpcServiceProvider → (announcedAddr peer req).isSome)
    (hanswer : Answerable r req) :
    ∃ rsp, handleMessage peer req l r =
      .ok (rsp, localsAfter peer req l, r.addAll (added req l)) := by
  obtain ⟨rsp, hrsp⟩ := dispatch_eq l r h
  exact ⟨rsp, handleMessage_eq_ok_iff.mpr ⟨hrsp, sendAnswer_of_answerable hrsp hanswer⟩⟩

/-- A round that goes through is one of these. -/
theorem handleMessage_inv {peer : Option IPv4Address} {req : Protocol} {l l' : Locals}
    {r r' : Registry} {rsp : Option Protocol} (h : handleMessage peer req l r = .ok (rsp, l', r')) :
    (req.type = .kRpcServiceProvider → (announcedAddr peer req).isSome) ∧
      l' = localsAfter peer req l ∧ r' = r.addAll (added req l) := by
  have hdispatch := (handleMessage_eq_ok_iff.mp h).1
  by_cases hone : req.type = .kRpcServiceProvider → (announcedAddr peer req).isSome
  · obtain ⟨rsp', hmsg⟩ := dispatch_eq l r hone
    rw [hmsg] at hdispatch
    cases hdispatch
    exact ⟨hone, rfl, rfl⟩
  · rw [Classical.not_imp] at hone
    obtain ⟨e, he⟩ := dispatch_error l r hone.1 hone.2
    cases he.symm.trans hdispatch

/-- Every answer of the session can be sent: an answer to a discovery depends on
what the session has registered before. -/
def Answered (peer : Option IPv4Address) : List Protocol → Locals → Registry → Prop
  | [], _, _ => True
  | req :: msgs, l, r => Answerable r req ∧
      Answered peer msgs (localsAfter peer req l) (r.addAll (added req l))

omit [Machine] in
/-- At the end of a provider's session its address is removed. -/
theorem handleEnd_of_provider {l : Locals} (h : l.isServiceProvider = true) (r : Registry) :
    handleEnd l r = r.unregisterService l.providerAddr := if_pos h

end

/-! ## sessions -/

/-- 127.0.0.1, as a little-endian machine holds it. -/
def loopback : IPv4Address := ⟨0x0100007f, 0⟩

/-- The announcement of a port below 128. -/
def announce (port : Byte) : Protocol := .createSuccess .kRpcServiceProvider [port] 0

/-- A request for the providers of "s". -/
def discoverS : Protocol := .createSuccess .kRpcServiceDiscoverRequest [1, 115] 0

end Registry
end XzmjxRpc
