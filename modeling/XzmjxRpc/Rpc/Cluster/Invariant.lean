import XzmjxRpc.Rpc.Cluster
import XzmjxRpc.Rpc.Server.Registration.Invariant
import XzmjxRpc.Rpc.ServiceRegistry.Announce
import XzmjxRpc.Rpc.ServiceRegistry.Answer

/-!
# XzmjxRpc.Rpc.Cluster.Invariant

What the registry knows of the servers, in every run in which each is bound
and registers once and no two have the same address at a time.

The registry's session of a server is what the messages received from it make
of a new session (`Inv.session`), and those are a beginning of what the server
sends (`Inv.received`).  So the sessions are well-behaved (`Inv.wellBehaved`),
and the invariant of the registry comes with the run.
-/

namespace XzmjxRpc
namespace Cluster

section
variable [Machine] (host : Nat → IPv4Address)

/-! ## the messages of a server -/

/-- The announcement announces the port at the peer's address. -/
theorem announcedAddr_providerMsg (peer : IPv4Address) (port : BitVec 32) :
    Registry.announcedAddr (some peer) (RpcServer.providerMsg port) =
      some (providerAddr peer port) := by
  have hread : readUint32 (RpcServer.providerMsg port).payload = .ok (port, []) := by
    rw [RpcServer.payload_providerMsg]
    exact (congrArg readUint32 (List.append_nil _)).symm.trans (reads_readUint32 port [])
  have htype : (RpcServer.providerMsg port).type = .kRpcServiceProvider := rfl
  rw [Registry.announcedAddr, if_pos htype, Registry.handleProvider_of_ok peer hread]
  rfl

/-- The request of a registration names the service. -/
theorem registeredName_registerMsg (service : RpcServer.Name) :
    Registry.registeredName (RpcServer.registerMsg service) = some service.1 := by
  have hs : (Serializer.ofString (serialize .string service)).toString =
      serialize .string service ++ [] := by
    rw [Serializer.toString_ofString, List.append_nil]
  obtain ⟨s, hget, -, -⟩ := Serializer.get_of_toString (Ty.interp .string).init_fresh hs
  have htype : (RpcServer.registerMsg service).type = .kRpcServiceRegisterRequest := rfl
  rw [Registry.registeredName, if_pos htype, Registry.serviceName_eq_some_iff]
  exact ⟨s, by rw [RpcServer.payload_registerMsg]; exact hget⟩

/-- What follows the announcement registers the services, and nothing else. -/
theorem registeredNames_registration (services : List RpcServer.Name) (heartbeats : Nat) :
    (services.map RpcServer.registerMsg ++ List.replicate heartbeats Protocol.heartbeat).filterMap
      Registry.registeredName = services.map (·.1) := by
  have hnone : Registry.registeredName Protocol.heartbeat = none := rfl
  have hsome : Registry.registeredName ∘ RpcServer.registerMsg = some ∘ (·.1) :=
    funext registeredName_registerMsg
  rw [List.filterMap_append, List.filterMap_map, List.filterMap_replicate_of_none hnone,
    List.append_nil, hsome, List.filterMap_eq_map]

/-! ## the session of a server -/

/-- The registry's session after these messages. -/
def sessionOf (peer : IPv4Address) (msgs : List Protocol) : Registry.Session :=
  msgs.foldl Registry.Session.after { peer := some peer }

theorem sessionOf_concat (peer : IPv4Address) (msgs : List Protocol) (msg : Protocol) :
    sessionOf peer (msgs ++ [msg]) = (sessionOf peer msgs).after msg := by
  rw [sessionOf, List.foldl_append]
  rfl

/-- After the announcement it has the provider's address, and the services that
were registered since. -/
theorem sessionOf_provider (peer : IPv4Address) (port : BitVec 32) {msgs : List Protocol}
    (h : ∀ msg ∈ msgs, msg.type ≠ .kRpcServiceProvider) :
    sessionOf peer (RpcServer.providerMsg port :: msgs) =
      ⟨some peer, ⟨true, providerAddr peer port⟩,
        (msgs.filterMap Registry.registeredName).map (·, providerAddr peer port)⟩ := by
  induction msgs using List.reverseRecOn with
  | nil =>
      have hafter := Registry.localsAfter_of_announced (announcedAddr_providerMsg peer port) {}
      have hadded :=
        Registry.added_of_provider (show (RpcServer.providerMsg port).type = _ from rfl) {}
      simp [sessionOf, Registry.Session.after, hafter, hadded]
  | append_singleton msgs msg ih =>
      rw [← List.cons_append, sessionOf_concat, ih fun m hm => h m (List.mem_append_left _ hm),
        Registry.Session.after, Registry.localsAfter_of_ne (h msg (by simp)),
        List.filterMap_append, List.map_append]
      congr 1
      cases hname : Registry.registeredName msg <;> simp [Registry.added, hname]

/-! ## the invariant -/

/-- What a step sends is on the connection. -/
theorem sent_of_step {s t : RpcServer.State} {a : RpcServer.Action} (h : RpcServer.Step s a t) :
    t.sent = s.sent ++ wired s a := by
  cases a with
  | push =>
      obtain ⟨-, ⟨port, -, rfl⟩ | ⟨last, name, -, -, rfl⟩⟩ := h.push_inv <;>
        exact (List.append_nil _).symm
  | send =>
      simp only [RpcServer.Step, RpcServer.State.next] at h
      unfold wired
      split at h
      · cases h
      · next msg rest hchan =>
        split at h <;> cases h
        simp only [RpcServer.State.sendRound, hchan]
        cases s.broken <;> by_cases hsession : s.session = some true <;> simp [hsession]
  | _ =>
      simp only [RpcServer.Step, RpcServer.State.next] at h
      grind [RpcServer.State.enqueue, RpcServer.State.arm, RpcServer.State.closeSession,
        RpcServer.State.run, RpcServer.State.start, wired]

/-- Only `bindRegistry` makes a connection, and it stays. -/
theorem bound_of_step {s t : RpcServer.State} {a : RpcServer.Action} (h : RpcServer.Step s a t)
    (ha : a ≠ .bindRegistry true) : t.bound = s.bound ∧ (s.session ≠ none → t.session ≠ none) := by
  cases a with
  | push =>
      obtain ⟨-, ⟨port, -, rfl⟩ | ⟨last, name, -, -, rfl⟩⟩ := h.push_inv <;> exact ⟨rfl, id⟩
  | _ =>
      simp only [RpcServer.Step, RpcServer.State.next] at h
      grind [RpcServer.State.enqueue, RpcServer.State.arm, RpcServer.State.closeSession,
        RpcServer.State.run, RpcServer.State.start, RpcServer.State.sendRound,
        Option.map_eq_none_iff]

/-- Only `giveUp` gives up a write. -/
theorem gaveUp_of_step {s t : RpcServer.State} {a : RpcServer.Action} (h : RpcServer.Step s a t)
    (ha : a ≠ .giveUp) : t.gaveUp = s.gaveUp := by
  cases a with
  | push =>
      obtain ⟨-, ⟨port, -, rfl⟩ | ⟨last, name, -, -, rfl⟩⟩ := h.push_inv <;> rfl
  | _ =>
      simp only [RpcServer.Step, RpcServer.State.next] at h
      grind [RpcServer.State.enqueue, RpcServer.State.arm, RpcServer.State.closeSession,
        RpcServer.State.run, RpcServer.State.start, RpcServer.State.sendRound]

/-- A server that has given up no write. -/
structure Whole (t : RpcServer.State) : Prop extends RpcServer.Inv t where
  gaveUp : t.gaveUp = false

/-- Servers, connections and sessions fit together. -/
structure Inv (s : State) : Prop where
  server : ∀ i, Whole (s.servers i)
  registry : Registry.Inv s.registry
  /-- What was sent was received or is under way. -/
  linked : ∀ i l, s.links i = some l →
    (s.servers i).session ≠ none ∧ (s.servers i).sent = l.delivered ++ l.inflight
  session : ∀ i k, s.registry.sessions i = some k →
    ∃ l, s.links i = some l ∧ k = sessionOf (host i) l.delivered
  waiting : ∀ i l, s.links i = some l → s.registry.sessions i = none → l.delivered = []
  apart : ∀ i j p q, i ≠ j → s.links i ≠ none → s.links j ≠ none →
    (s.servers i).bound = some p → (s.servers j).bound = some q →
    providerAddr (host i) p ≠ providerAddr (host j) q

theorem inv_init : Inv host init where
  server i := ⟨RpcServer.inv_init, rfl⟩
  registry := Registry.inv_init
  linked i l hl := by cases hl
  session i k hk := by cases hk
  waiting i l hl := by cases hl
  apart i j p q _ hi := absurd rfl hi

variable {host}

/-- What a connected server has sent. -/
theorem Inv.log {s : State} (hs : Inv host s) {i : Nat} {l : Link} (hl : s.links i = some l) :
    l.delivered ++ l.inflight = [] ∨ ∃ port heartbeats, (s.servers i).bound = some port ∧
      l.delivered ++ l.inflight <+:
        RpcServer.registration port (s.servers i).registered heartbeats := by
  have ht := hs.server i
  obtain ⟨hsession, hsent⟩ := hs.linked i l hl
  rw [← hsent]
  by_cases hannounce : ∃ port, (s.servers i).pending = some (.announce port)
  · obtain ⟨port, hport⟩ := hannounce
    have hqueued := (ht.announcing port hport).2.1
    exact .inl (List.prefix_nil.mp (hqueued ▸ ht.sent_queued ht.gaveUp))
  · obtain ⟨port, heartbeats, hbound, hqueued, -⟩ := ht.queue hsession (not_exists.mp hannounce)
    exact .inr ⟨port, heartbeats, hbound, hqueued ▸ ht.sent_queued ht.gaveUp⟩

/-- What the registry has received from a server. -/
structure Received (t : RpcServer.State) (port : BitVec 32) (msgs : List Protocol) : Prop where
  bound : t.bound = some port
  /-- They are registrations and heartbeats. -/
  mem : ∀ msg ∈ msgs, (∃ name ∈ t.registered, msg = RpcServer.registerMsg name) ∨
    msg = Protocol.heartbeat
  /-- No service is registered twice. -/
  nodup : (msgs.filterMap Registry.registeredName).Nodup

theorem Received.type_ne {t : RpcServer.State} {port : BitVec 32} {msgs : List Protocol}
    (h : Received t port msgs) : ∀ msg ∈ msgs, msg.type ≠ .kRpcServiceProvider := by
  intro msg hmsg
  rcases h.mem msg hmsg with ⟨name, -, rfl⟩ | rfl <;> nofun

theorem Received.mem_iff {t : RpcServer.State} {port : BitVec 32} {msgs : List Protocol}
    (h : Received t port msgs) (name : RpcServer.Name) :
    name.1 ∈ msgs.filterMap Registry.registeredName ↔ RpcServer.registerMsg name ∈ msgs := by
  rw [List.mem_filterMap]
  constructor
  · rintro ⟨msg, hmsg, hname⟩
    rcases h.mem msg hmsg with ⟨name', -, rfl⟩ | rfl
    · rw [registeredName_registerMsg, Option.some.injEq] at hname
      rwa [← Subtype.ext hname]
    · cases hname
  · exact fun hmem => ⟨_, hmem, registeredName_registerMsg name⟩

/-- A beginning of what a server sends is nothing, or the announcement and what
the registry receives after it. -/
theorem Inv.received {s : State} (hs : Inv host s) {i : Nat} {l : Link}
    (hl : s.links i = some l) {msgs rest : List Protocol}
    (h : l.delivered ++ l.inflight = msgs ++ rest) :
    msgs = [] ∨ ∃ port tail, msgs = RpcServer.providerMsg port :: tail ∧
      Received (s.servers i) port tail := by
  rcases msgs with - | ⟨msg, tail⟩
  · exact .inl rfl
  rcases hs.log hl with hnil | ⟨port, heartbeats, hbound, hprefix⟩
  · rw [h] at hnil
    cases hnil
  rw [h] at hprefix
  obtain ⟨rfl, htail⟩ := List.cons_prefix_cons.mp ((List.prefix_append _ rest).trans hprefix)
  refine .inr ⟨port, tail, rfl, hbound, fun msg hmsg => ?_, ?_⟩
  · rcases List.mem_append.mp (htail.subset hmsg) with hmsg | hmsg
    · obtain ⟨name, hname, rfl⟩ := List.mem_map.mp hmsg
      exact .inl ⟨name, hname, rfl⟩
    · exact .inr (List.eq_of_mem_replicate hmsg)
  · have hsub := (htail.filterMap Registry.registeredName).sublist
    rw [registeredNames_registration] at hsub
    exact hsub.nodup ((RpcServer.nodup_of_pairwise (hs.server i).registered_sorted).map
      Subtype.val_injective)

/-- The session of a server is new, or it is a provider's. -/
theorem Inv.session_eq {s : State} (hs : Inv host s) {i : Nat} {k : Registry.Session}
    (hk : s.registry.sessions i = some k) : ∃ l, s.links i = some l ∧
      ((l.delivered = [] ∧ k = { peer := some (host i) }) ∨
        ∃ port tail, l.delivered = RpcServer.providerMsg port :: tail ∧
          Received (s.servers i) port tail ∧
          k = ⟨some (host i), ⟨true, providerAddr (host i) port⟩,
            (tail.filterMap Registry.registeredName).map (·, providerAddr (host i) port)⟩) := by
  obtain ⟨l, hl, rfl⟩ := hs.session i k hk
  refine ⟨l, hl, ?_⟩
  rcases hs.received hl rfl with hnil | ⟨port, tail, heq, hreceived⟩
  · exact .inl ⟨hnil, by rw [hnil]; rfl⟩
  · exact .inr ⟨port, tail, heq, hreceived, by
      rw [heq, sessionOf_provider _ _ hreceived.type_ne]⟩

/-- The registry finds every message of a server in order. -/
theorem Inv.wellBehaved {s : State} (hs : Inv host s) {i : Nat} {l : Link} {msg : Protocol}
    {rest : List Protocol} (hl : s.links i = some l) (hmsg : l.inflight = msg :: rest) :
    Registry.WellBehaved s.registry (.receive i msg) := by
  intro k hk
  obtain ⟨l', hl', hcases⟩ := hs.session_eq hk
  cases hl.symm.trans hl'
  have hlog : l.delivered ++ l.inflight = (l.delivered ++ [msg]) ++ rest := by
    rw [hmsg, List.append_assoc, List.singleton_append]
  obtain ⟨port, tail, heq, hreceived⟩ := (hs.received hl hlog).resolve_left (by simp)
  rcases hcases with ⟨hnil, rfl⟩ | ⟨port', tail', hdelivered, -, rfl⟩
  · -- the announcement
    rw [hnil, List.nil_append, List.cons.injEq] at heq
    obtain ⟨rfl, -⟩ := heq
    rw [if_neg (by simp)]
    refine ⟨_, announcedAddr_providerMsg (host i) port, fun j k' hj hk' hflag => ?_⟩
    obtain ⟨l', hl', ⟨-, rfl⟩ | ⟨port', tail', -, hreceived', rfl⟩⟩ := hs.session_eq hk'
    · cases hflag
    · exact hs.apart j i port' port hj (by simp [hl']) (by simp [hl]) hreceived'.bound
        hreceived.bound
  · -- a registration or a heartbeat
    rw [hdelivered, List.cons_append, List.cons.injEq] at heq
    obtain ⟨-, rfl⟩ := heq
    rw [if_pos rfl]
    refine ⟨hreceived.type_ne msg (by simp), fun service hservice hmem => ?_⟩
    have hnodup := hreceived.nodup
    rw [List.filterMap_append, List.filterMap_cons_some hservice, List.filterMap_nil] at hnodup
    obtain ⟨service', hold, heq⟩ := List.mem_map.mp hmem
    cases heq
    exact List.disjoint_of_nodup_append hnodup hold (List.mem_singleton_self _)

/-- And its answer to one can be sent. -/
theorem Inv.answerable {s : State} (hs : Inv host s) {i : Nat} {l : Link} {msg : Protocol}
    {rest : List Protocol} (hl : s.links i = some l) (hmsg : l.inflight = msg :: rest) :
    Registry.Answerable s.registry.registry msg := by
  have hlog : l.delivered ++ l.inflight = (l.delivered ++ [msg]) ++ rest := by
    rw [hmsg, List.append_assoc, List.singleton_append]
  obtain ⟨port, tail, heq, hreceived⟩ := (hs.received hl hlog).resolve_left (by simp)
  have hmem : msg ∈ RpcServer.providerMsg port :: tail := heq ▸ by simp
  rcases List.mem_cons.mp hmem with rfl | hmem
  · exact Registry.answerable_of_type (.inl rfl)
  · rcases hreceived.mem msg hmem with ⟨name, -, rfl⟩ | rfl
    · exact Registry.answerable_of_registeredName (registeredName_registerMsg name)
    · exact Registry.answerable_of_type (.inr rfl)

/-! ## the steps -/

/-- A server connects: it has sent nothing, and no other connection is that of a
server with its address. -/
theorem Inv.bindRegistry {s : State} (hs : Inv host s) {i : Nat} {t : RpcServer.State}
    (ht : Whole t) (hold : (s.servers i).session = none) (hsession : t.session ≠ none)
    (hbound : t.bound = some (s.servers i).port) (hsent : t.sent = [])
    (hown : ∀ j port, j ≠ i → s.links j ≠ none → (s.servers j).bound = some port →
      providerAddr (host j) port ≠ providerAddr (host i) (s.servers i).port) :
    Inv host ((s.setServer i t).setLink i (some {})) := by
  have hnone : s.registry.sessions i = none := by
    by_contra hsome
    obtain ⟨k, hk⟩ := Option.ne_none_iff_exists'.mp hsome
    obtain ⟨l, hl, -⟩ := hs.session i k hk
    exact (hs.linked i l hl).1 hold
  refine ⟨fun j => ?_, hs.registry, fun j l hl => ?_, fun j k hk => ?_, fun j l hl hj => ?_,
    fun j j' p q hne hj hj' hp hq => ?_⟩
  · by_cases hji : j = i
    · subst hji
      simpa using ht
    · simpa [hji] using hs.server j
  · by_cases hji : j = i
    · subst hji
      simp only [State.setLink_links_self, Option.some.injEq] at hl
      subst hl
      simpa [hsent] using hsession
    · simp only [State.setLink_links_of_ne _ hji, State.setServer_links] at hl
      simpa [hji] using hs.linked j l hl
  · obtain ⟨l, hl, hkl⟩ := hs.session j k hk
    have hji : j ≠ i := by
      rintro rfl
      cases hnone.symm.trans hk
    exact ⟨l, by simpa [hji] using hl, hkl⟩
  · by_cases hji : j = i
    · subst hji
      simp only [State.setLink_links_self, Option.some.injEq] at hl
      rw [← hl]
    · exact hs.waiting j l (by simpa [hji] using hl) hj
  · by_cases hji : j = i
    · subst hji
      have hji' : j' ≠ j := hne.symm
      simp only [State.setLink_links_of_ne _ hji', State.setServer_links] at hj'
      simp only [State.setLink_servers, State.setServer_servers_self, hbound,
        Option.some.injEq] at hp
      simp only [State.setLink_servers, State.setServer_servers_of_ne _ hji'] at hq
      exact hp ▸ (hown j' q hji' hj' hq).symm
    · simp only [State.setLink_links_of_ne _ hji, State.setServer_links] at hj
      simp only [State.setLink_servers, State.setServer_servers_of_ne _ hji] at hp
      by_cases hji' : j' = i
      · subst hji'
        simp only [State.setLink_servers, State.setServer_servers_self, hbound,
          Option.some.injEq] at hq
        exact hq ▸ hown j p hji hj hp
      · simp only [State.setLink_links_of_ne _ hji', State.setServer_links] at hj'
        simp only [State.setLink_servers, State.setServer_servers_of_ne _ hji'] at hq
        exact hs.apart j j' p q hne hj hj' hp hq

/-- A server that has its connection, or none yet, takes a step. -/
theorem Inv.other {s : State} (hs : Inv host s) {i : Nat} {a : RpcServer.Action}
    {t : RpcServer.State} (ht : Whole t) (hsent : t.sent = (s.servers i).sent ++
      wired (s.servers i) a) (hbound : t.bound = (s.servers i).bound)
    (hsession : (s.servers i).session ≠ none → t.session ≠ none) :
    Inv host ((s.setServer i t).setLink i
      ((s.links i).map fun l => { l with inflight := l.inflight ++ wired (s.servers i) a })) := by
  refine ⟨fun j => ?_, hs.registry, fun j l hl => ?_, fun j k hk => ?_, fun j l hl hj => ?_,
    fun j j' p q hne hj hj' hp hq => ?_⟩
  · by_cases hji : j = i
    · subst hji
      simpa using ht
    · simpa [hji] using hs.server j
  · by_cases hji : j = i
    · subst hji
      rw [State.setLink_links_self] at hl
      obtain ⟨l, hold, rfl⟩ := Option.map_eq_some_iff.mp hl
      obtain ⟨hsome, hlog⟩ := hs.linked j l hold
      simpa [hsent, hlog] using hsession hsome
    · simp only [State.setLink_links_of_ne _ hji, State.setServer_links] at hl
      simpa [hji] using hs.linked j l hl
  · obtain ⟨l, hl, hkl⟩ := hs.session j k hk
    by_cases hji : j = i
    · subst hji
      refine ⟨{ l with inflight := l.inflight ++ wired (s.servers j) a }, ?_, hkl⟩
      rw [State.setLink_links_self, hl, Option.map_some]
    · exact ⟨l, by simpa [hji] using hl, hkl⟩
  · by_cases hji : j = i
    · subst hji
      rw [State.setLink_links_self] at hl
      obtain ⟨l, hold, rfl⟩ := Option.map_eq_some_iff.mp hl
      exact hs.waiting j l hold hj
    · exact hs.waiting j l (by simpa [hji] using hl) hj
  · have hlink (m : Nat) (hm : ((s.setServer i t).setLink i ((s.links i).map fun l =>
        { l with inflight := l.inflight ++ wired (s.servers i) a })).links m ≠ none) :
        s.links m ≠ none := by
      by_cases hmi : m = i
      · subst hmi
        simpa using hm
      · simpa [hmi] using hm
    have hport (m : Nat) : ((s.setServer i t).servers m).bound = (s.servers m).bound := by
      by_cases hmi : m = i
      · subst hmi
        simpa using hbound
      · simp [hmi]
    exact hs.apart j j' p q hne (hlink j hj) (hlink j' hj') ((hport j).symm.trans hp)
      ((hport j').symm.trans hq)

/-- A server takes a step. -/
theorem Inv.serverStep {s : State} (hs : Inv host s) {i : Nat} {a : RpcServer.Action}
    {t : RpcServer.State} (h : RpcServer.Step (s.servers i) a t)
    (hown : OwnAddress host s (.server i a)) :
    Inv host ((s.setServer i t).setLink i (wire (s.servers i) (s.links i) a)) := by
  obtain ⟨honce, hgiveUp, hown⟩ := hown
  have ht : Whole t := ⟨(hs.server i).toInv.step ⟨honce, h⟩,
    (gaveUp_of_step h hgiveUp).trans (hs.server i).gaveUp⟩
  by_cases ha : a = .bindRegistry true
  · subst ha
    have hold : (s.servers i).session = none := honce rfl
    have hfresh := (hs.server i).unbound hold
    have hsent := ((hs.server i).idle (by simp [RpcServer.State.Done, hfresh.2.1])).sent
    rw [RpcServer.Step, RpcServer.State.next, if_neg (by simp [hfresh.1]), if_pos rfl] at h
    cases h
    exact hs.bindRegistry ht hold (by simp) rfl hsent (hown rfl)
  · obtain ⟨hbound, hsession⟩ := bound_of_step h ha
    have hwire : wire (s.servers i) (s.links i) a =
        (s.links i).map fun l =>
          { l with inflight := l.inflight ++ wired (s.servers i) a } := by
      unfold wire
      split
      · exact absurd rfl ha
      · rfl
    rw [hwire]
    exact hs.other ht (sent_of_step h) hbound hsession

/-- The registry accepts a connection. -/
theorem Inv.accept {s : State} (hs : Inv host s) {i : Nat} {l : Link} {r : Registry.State}
    (hl : s.links i = some l) (h : Registry.Step s.registry (.accept i (some (host i))) r) :
    Inv host { s with registry := r } := by
  have hr := hs.registry.step (a := .accept i (some (host i))) ⟨trivial, h⟩
  rcases h.inv hs.registry.agree with ⟨_, _, ⟨⟩, hnone, rfl⟩ | ⟨_, _, _, ⟨⟩, -⟩ | ⟨_, _, ⟨⟩, -⟩
  refine ⟨hs.server, hr, hs.linked, fun j k hk => ?_, fun j l' hl' hj => ?_, hs.apart⟩
  · rcases Registry.State.setSession_eq_some.mp hk with ⟨rfl, hnew⟩ | ⟨-, hold⟩
    · cases hnew
      exact ⟨l, hl, by rw [hs.waiting j l hl hnone]; rfl⟩
    · exact hs.session j k hold
  · by_cases hji : j = i
    · subst hji
      simp at hj
    · exact hs.waiting j l' hl' (by simpa [hji] using hj)

/-- The registry receives a message. -/
theorem Inv.deliver {s : State} (hs : Inv host s) {i : Nat} {l : Link} {msg : Protocol}
    {rest : List Protocol} {r : Registry.State} (hl : s.links i = some l)
    (hmsg : l.inflight = msg :: rest) (h : Registry.Step s.registry (.receive i msg) r) :
    Inv host { s.setLink i (some ⟨rest, l.delivered ++ [msg]⟩) with registry := r } := by
  have hr := hs.registry.step (a := .receive i msg) ⟨hs.wellBehaved hl hmsg, h⟩
  rcases h.inv hs.registry.agree with ⟨_, _, ⟨⟩, -⟩ | ⟨_, _, k, ⟨⟩, hk, rfl⟩ | ⟨_, _, ⟨⟩, -⟩
  obtain ⟨l', hl', hkl⟩ := hs.session i k hk
  cases hl.symm.trans hl'
  refine ⟨hs.server, hr, fun j l' hl' => ?_, fun j k' hk' => ?_, fun j l' hl' hj => ?_,
    fun j j' p q hne hj hj' => ?_⟩
  · by_cases hji : j = i
    · subst hji
      simp only [State.setLink_links_self, Option.some.injEq] at hl'
      subst hl'
      obtain ⟨hsome, hlog⟩ := hs.linked j l hl
      exact ⟨hsome, by simp [hlog, hmsg]⟩
    · exact hs.linked j l' (by simpa [hji] using hl')
  · rcases Registry.State.setSession_eq_some.mp hk' with ⟨rfl, hnew⟩ | ⟨hji, hold⟩
    · cases hnew
      exact ⟨_, State.setLink_links_self .., by rw [sessionOf_concat, hkl]⟩
    · obtain ⟨l', hl', hkl'⟩ := hs.session j k' hold
      exact ⟨l', by simpa [hji] using hl', hkl'⟩
  · by_cases hji : j = i
    · subst hji
      simp at hj
    · exact hs.waiting j l' (by simpa [hji] using hl') (by simpa [hji] using hj)
  · have hlink (m : Nat) (hm : (s.setLink i (some ⟨rest, l.delivered ++ [msg]⟩)).links m ≠ none) :
        s.links m ≠ none := by
      by_cases hmi : m = i
      · simp [hmi, hl]
      · simpa [hmi] using hm
    exact hs.apart j j' p q hne (hlink j hj) (hlink j' hj')

/-- The registry reads the end of a stream. -/
theorem Inv.hangup {s : State} (hs : Inv host s) {i : Nat} {r : Registry.State}
    (h : Registry.Step s.registry (.disconnect i) r) :
    Inv host { s.setLink i none with registry := r } := by
  have hr : Registry.Inv r := by
    refine hs.registry.step (a := .disconnect i) ⟨fun k hk => ?_, h⟩
    rcases h.inv hs.registry.agree with
      ⟨_, _, ⟨⟩, -⟩ | ⟨_, _, _, ⟨⟩, -⟩ | ⟨_, k', ⟨⟩, hk', hflag, -⟩
    cases hk.symm.trans hk'
    exact hflag
  rcases h.inv hs.registry.agree with ⟨_, _, ⟨⟩, -⟩ | ⟨_, _, _, ⟨⟩, -⟩ | ⟨_, k, ⟨⟩, hk, -, rfl⟩
  have hlink {j : Nat} {l : Link} (hl : (s.setLink i none).links j = some l) :
      j ≠ i ∧ s.links j = some l := by
    by_cases hji : j = i
    · subst hji
      simp at hl
    · exact ⟨hji, by simpa [hji] using hl⟩
  refine ⟨hs.server, hr, fun j l hl => hs.linked j l (hlink hl).2, fun j k' hk' => ?_,
    fun j l hl hj => hs.waiting j l (hlink hl).2 (by simpa [(hlink hl).1] using hj),
    fun j j' p q hne hj hj' => ?_⟩
  · rcases Registry.State.setSession_eq_some.mp hk' with ⟨-, hnew⟩ | ⟨hji, hold⟩
    · cases hnew
    · obtain ⟨l, hl, hkl⟩ := hs.session j k' hold
      exact ⟨l, by simpa [hji] using hl, hkl⟩
  · obtain ⟨l, hl⟩ := Option.ne_none_iff_exists'.mp hj
    obtain ⟨l', hl'⟩ := Option.ne_none_iff_exists'.mp hj'
    exact hs.apart j j' p q hne (by simp [(hlink hl).2]) (by simp [(hlink hl').2])

theorem Inv.step {s t : State} {a : Action} (hs : Inv host s)
    (h : Lts.Restrict (Step host) (OwnAddress host) s a t) : Inv host t := by
  obtain ⟨hown, hstep⟩ := h
  cases hstep with
  | server h => exact hs.serverStep h hown
  | accept hl h => exact hs.accept hl h
  | deliver hl hmsg h => exact hs.deliver hl hmsg h
  | hangup hl hend h => exact hs.hangup h

theorem inv_of_run {as : List Action} {s : State}
    (h : Lts.Run (Lts.Restrict (Step host) (OwnAddress host)) init as s) : Inv host s :=
  h.invariant (inv_init host) fun _ _ _ hs hstep => hs.step hstep

end

end Cluster
end XzmjxRpc
