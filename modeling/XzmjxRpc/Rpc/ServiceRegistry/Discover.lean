import XzmjxRpc.Rpc.ServiceRegistry.Sessions

/-!
# XzmjxRpc.Rpc.ServiceRegistry.Discover

What clients are told while providers come and go.

Entries are kept by address: when a session disconnects, those of another
session with the same address go as well, and only then is a registered service
missing (`registered_discovered`).  As long as the sessions behave as
`RpcServer` does and their addresses differ, a discovery lists exactly the
addresses of the connected sessions that registered the service
(`Inv.discover`).
-/

namespace XzmjxRpc
namespace Registry

section
variable [Machine]

/-! ## the answer to a discovery -/

/-- The response to the request has this code and lists these addresses. -/
structure Answers (r : Registry) (req : Protocol) (code : ErrCode) (addrs : List Bytes) : Prop where
  errCode : (r.handleServiceDiscover req).errCode = code
  payload : (r.handleServiceDiscover req).payload = serializeSeq writeStringVint addrs

/-- The answer is that to the name in `handleServiceDiscover`. -/
theorem answers_discoverName (r : Registry) {req : Protocol} {name : Bytes}
    (h : (discoverName req).1 = name) :
    Answers r req (if r.providers name = [] then .kRpcNoMethod else .kRpcSuccess)
      (r.providers name) := by
  subst h
  refine ⟨?_, ?_⟩
  · simp only [handleServiceDiscover, Protocol.create_eq]
    split <;> rfl
  · simp only [handleServiceDiscover, Protocol.payload_create]

/-- A name is answered with the addresses in its range, in the order of their
registration, and without any with the code for an unknown name. -/
theorem answers_providers (r : Registry) {req : Protocol} {name : Bytes} (h : Names req name) :
    Answers r req (if r.providers name = [] then .kRpcNoMethod else .kRpcSuccess)
      (r.providers name) :=
  answers_discoverName r (by rw [discoverName_of_names h])

omit [Machine] in
theorem mem_providers {r : Registry} {name addr : Bytes} :
    addr ∈ r.providers name ↔ (name, addr) ∈ r.servicesProvider.pairs := by
  simp [providers, Multimap.mem_equalRange, Multimap.mem_pairs]
  grind

/-! ## sessions that share an address -/

/-- A session disconnects only when no other connected session has registered
under its address. -/
def Spares (s : State) : Action → Prop
  | .disconnect i => ∀ k, s.sessions i = some k → ∀ j k', j ≠ i → s.sessions j = some k' →
      ∀ p ∈ k'.registered, p.2 ≠ k.locals.providerAddr
  | _ => True

/-- What the connected sessions registered is in the maps. -/
structure Listed (s : State) : Prop where
  agree : s.registry.Agree
  listed : ∀ i k, s.sessions i = some k → ∀ p ∈ k.registered, p ∈ s.registry.servicesProvider.pairs

omit [Machine] in
theorem pairs_addAll (r : Registry) (ps : List (Bytes × Bytes)) :
    (r.addAll ps).servicesProvider.pairs = r.servicesProvider.pairs ++ ps :=
  r.servicesProvider.pairs_emplaceAll ps

omit [Machine] in
theorem pairs_without (r : Registry) (addr : Bytes) :
    (r.without addr).servicesProvider.pairs =
      r.servicesProvider.pairs.filter (·.2 ≠ addr) := by
  simp [without, Multimap.pairs, List.filter_map, Function.comp_def]

theorem Listed.step {s t : State} {a : Action} (hs : Listed s)
    (h : Lts.Restrict Step Spares s a t) : Listed t := by
  obtain ⟨hc, hstep⟩ := h
  refine ⟨agree_of_step hs.agree hstep, ?_⟩
  rcases hstep.inv hs.agree with ⟨i, peer, rfl, hi, rfl⟩ | ⟨i, req, k, rfl, hk, rfl⟩ |
    ⟨i, k, rfl, hk, -, rfl⟩
  · intro j k' hk' p hp
    rcases State.setSession_eq_some.mp hk' with ⟨rfl, hnew⟩ | ⟨-, hold⟩
    · cases hnew
      simp at hp
    · exact hs.listed j k' hold p hp
  · intro j k' hk' p hp
    rw [pairs_addAll, List.mem_append]
    rcases State.setSession_eq_some.mp hk' with ⟨rfl, hnew⟩ | ⟨-, hold⟩
    · cases hnew
      exact (List.mem_append.mp hp).imp_left (hs.listed j k hk p)
    · exact .inl (hs.listed j k' hold p hp)
  · intro j k' hk' p hp
    rcases State.setSession_eq_some.mp hk' with ⟨-, hnew⟩ | ⟨hj, hold⟩
    · cases hnew
    · rw [pairs_without]
      exact List.mem_filter.mpr ⟨hs.listed j k' hold p hp, by simpa using hc k hk j k' hj hold p hp⟩

/-- **A registered service is found**: in every run in which no disconnection
takes the entries of another connected session with it, what a connected
session has registered is among the providers that a discovery lists. -/
theorem registered_discovered {as : List Action} {s : State}
    (h : Lts.Run (Lts.Restrict Step Spares) init as s) {i : Nat} {k : Session}
    (hk : s.sessions i = some k) {service addr : Bytes} (hp : (service, addr) ∈ k.registered)
    {req : Protocol} (hreq : Names req service) :
    ∃ addrs, Answers s.registry req .kRpcSuccess addrs ∧ addr ∈ addrs := by
  have hinv : Listed s := h.invariant ⟨agree_empty, fun i k hk => by cases hk⟩
    fun _ _ _ hs hstep => hs.step hstep
  have hmem : addr ∈ s.registry.providers service := mem_providers.mpr (hinv.listed i k hk _ hp)
  have hanswers := answers_providers s.registry hreq
  rw [if_neg (List.ne_nil_of_mem hmem)] at hanswers
  exact ⟨_, hanswers, hmem⟩

/-- The condition is needed: a disconnection that does not meet it leaves a
connected session with a pair that no discovery lists. -/
theorem not_listed_of_not_spares {s t : State} {i : Nat} (hs : s.registry.Agree)
    (h : Step s (.disconnect i) t) (hc : ¬ Spares s (.disconnect i)) :
    ∃ j k service addr, t.sessions j = some k ∧ (service, addr) ∈ k.registered ∧
      addr ∉ t.registry.providers service := by
  rcases h.inv hs with ⟨_, _, ha, -⟩ | ⟨_, _, _, ha, -⟩ | ⟨i', k, ha, hk, -, rfl⟩
  · cases ha
  · cases ha
  · cases ha
    simp only [Spares, hk, Option.some.injEq, not_forall, not_not, ne_eq, exists_prop] at hc
    obtain ⟨_, rfl, j, k', hj, hk', ⟨service, addr⟩, hp, rfl⟩ := hc
    refine ⟨j, k', service, _, ?_, hp, ?_⟩
    · rw [← hk']
      exact State.setSession_sessions_of_ne _ hj _
    · rw [mem_providers, pairs_without]
      simp

/-! ## providers with addresses of their own -/

/-- What `RpcServer` does, and what else changes nothing: a session announces
an address that no other connected provider has, then registers services that
it has not registered yet, and does not end before the announcement. -/
def WellBehaved (s : State) : Action → Prop
  | .accept _ _ => True
  | .receive i req => ∀ k, s.sessions i = some k →
      if k.locals.isServiceProvider then
        req.type ≠ .kRpcServiceProvider ∧
          ∀ service, registeredName req = some service →
            (service, k.locals.providerAddr) ∉ k.registered
      else
        ∃ addr, announcedAddr k.peer req = some addr ∧
          ∀ j k', j ≠ i → s.sessions j = some k' → k'.locals.isServiceProvider = true →
            k'.locals.providerAddr ≠ addr
  | .disconnect i => ∀ k, s.sessions i = some k → k.locals.isServiceProvider = true

/-- The entries are those of the connected sessions, each of which registered
under its own address. -/
structure Inv (s : State) : Prop where
  agree : s.registry.Agree
  /-- Only providers have registered, and under their address. -/
  own : ∀ i k, s.sessions i = some k → ∀ p ∈ k.registered,
    k.locals.isServiceProvider = true ∧ p.2 = k.locals.providerAddr
  distinct : ∀ i j k k', i ≠ j → s.sessions i = some k → s.sessions j = some k' →
    k.locals.isServiceProvider = true → k'.locals.isServiceProvider = true →
    k.locals.providerAddr ≠ k'.locals.providerAddr
  nodup : s.registry.servicesProvider.pairs.Nodup
  mem_iff : ∀ p, p ∈ s.registry.servicesProvider.pairs ↔
    ∃ i k, s.sessions i = some k ∧ p ∈ k.registered

omit [Machine] in
theorem inv_init : Inv init where
  agree := agree_empty
  own i k hk := by cases hk
  distinct i j k k' _ hk := by cases hk
  nodup := List.nodup_nil
  mem_iff p := by simp [init, empty]

omit [Machine] in
/-- A new session has nothing registered and no address. -/
theorem Inv.accept {s : State} (hs : Inv s) {i : Nat} (hi : s.sessions i = none)
    (peer : Option IPv4Address) : Inv (s.setSession i (some { peer := peer })) where
  agree := hs.agree
  own := by
    intro j k hk p hp
    have := hs.own j k
    grind [State.setSession_eq_some]
  distinct := by
    intro j j' k k' hne hk hk'
    have := hs.distinct j j' k k' hne
    grind [State.setSession_eq_some]
  nodup := hs.nodup
  mem_iff := by
    intro p
    rw [State.setSession_registry, hs.mem_iff]
    simp only [State.setSession_eq_some]
    grind

omit [Machine] in
/-- What is registered after session `i` has registered `ps` more. -/
theorem State.exists_registered_setSession {s : State} {i : Nat} {k k' : Session}
    {ps : List (Bytes × Bytes)} (hk : s.sessions i = some k)
    (hps : k'.registered = k.registered ++ ps) (p : Bytes × Bytes) :
    (∃ j q, (s.setSession i (some k')).sessions j = some q ∧ p ∈ q.registered) ↔
      (∃ j q, s.sessions j = some q ∧ p ∈ q.registered) ∨ p ∈ ps := by
  constructor
  · rintro ⟨j, q, hq, hp⟩
    rcases State.setSession_eq_some.mp hq with ⟨rfl, hchanged⟩ | ⟨-, hold⟩
    · cases hchanged
      rw [hps, List.mem_append] at hp
      exact hp.imp_left fun hp => ⟨j, k, hk, hp⟩
    · exact .inl ⟨j, q, hold, hp⟩
  · rintro (⟨j, q, hq, hp⟩ | hadd)
    · by_cases hj : j = i
      · subst hj
        rw [hk] at hq
        cases hq
        exact ⟨j, _, State.setSession_sessions_self .., hps ▸ List.mem_append_left _ hp⟩
      · exact ⟨j, q, (State.setSession_sessions_of_ne _ hj _).trans hq, hp⟩
    · exact ⟨i, _, State.setSession_sessions_self .., hps ▸ List.mem_append_right _ hadd⟩

/-- An announcement gives the session an address that nobody else has. -/
theorem Inv.announce {s : State} (hs : Inv s) {i : Nat} {k : Session} {req : Protocol}
    {addr : Bytes} (hk : s.sessions i = some k) (hflag : ¬ k.locals.isServiceProvider = true)
    (haddr : announcedAddr k.peer req = some addr)
    (hother : ∀ j k', j ≠ i → s.sessions j = some k' → k'.locals.isServiceProvider = true →
      k'.locals.providerAddr ≠ addr) :
    Inv { s.setSession i (some (k.after req)) with
      registry := s.registry.addAll (added req k.locals) } := by
  have hadded := added_of_provider (type_of_announcedAddr haddr) k.locals
  -- it registered nothing before
  have hnil : k.registered = [] := List.eq_nil_iff_forall_not_mem.mpr fun p hp =>
    hflag (hs.own i k hk p hp).1
  have hafter : k.after req = ⟨k.peer, ⟨true, addr⟩, []⟩ := by
    rw [Session.after, localsAfter_of_announced haddr, hadded, hnil, List.append_nil]
  have hreg : s.registry.addAll (added req k.locals) = s.registry := by
    rw [hadded]
    rfl
  rw [hafter, hreg]
  exact {
    agree := hs.agree
    own := by
      intro j k' hk' p hp
      have := hs.own j k'
      grind [State.setSession_eq_some]
    distinct := by
      intro j j' k₁ k₂ hne h₁ h₂
      have := hs.distinct j j' k₁ k₂ hne
      grind [State.setSession_eq_some]
    nodup := hs.nodup
    mem_iff := by
      intro p
      rw [hs.mem_iff]
      exact ((State.exists_registered_setSession hk (by rw [hnil]; rfl) p).trans
        (or_iff_left List.not_mem_nil)).symm }

omit [Machine] in
/-- A pair of a provider's address that it has not registered is in no map:
another session with the pair would have the address. -/
theorem Inv.not_mem_pairs {s : State} (hs : Inv s) {i : Nat} {k : Session}
    (hk : s.sessions i = some k) (hflag : k.locals.isServiceProvider = true) {p : Bytes × Bytes}
    (haddr : p.2 = k.locals.providerAddr) (hnot : p ∉ k.registered) :
    p ∉ s.registry.servicesProvider.pairs := by
  intro hin
  obtain ⟨j, k', hk', hp'⟩ := (hs.mem_iff p).mp hin
  by_cases hj : j = i
  · subst hj
    rw [hk] at hk'
    cases hk'
    exact hnot hp'
  · obtain ⟨hflag', haddr'⟩ := hs.own j k' hk' p hp'
    exact hs.distinct j i k' k hj hk' hk hflag' hflag (haddr'.symm.trans haddr)

/-- A provider's other messages add at most a pair that nobody has registered. -/
theorem Inv.register {s : State} (hs : Inv s) {i : Nat} {k : Session} {req : Protocol}
    (hk : s.sessions i = some k) (hflag : k.locals.isServiceProvider = true)
    (htype : req.type ≠ .kRpcServiceProvider)
    (hnew : ∀ service, registeredName req = some service →
      (service, k.locals.providerAddr) ∉ k.registered) :
    Inv { s.setSession i (some (k.after req)) with
      registry := s.registry.addAll (added req k.locals) } := by
  have hafter : k.after req = ⟨k.peer, k.locals, k.registered ++ added req k.locals⟩ := by
    rw [Session.after, localsAfter_of_ne htype]
  have hmem : ∀ p ∈ added req k.locals, p.2 = k.locals.providerAddr ∧ p ∉ k.registered := by
    intro p hp
    cases hname : registeredName req with
    | none => simp [added, hname] at hp
    | some service =>
        rw [added_of_registeredName hname, List.mem_singleton] at hp
        subst hp
        exact ⟨rfl, hnew service hname⟩
  have hnodup : (added req k.locals).Nodup := by
    rw [added]
    cases registeredName req <;> simp
  rw [hafter]
  exact {
    agree := hs.agree.addAll _
    own := by
      intro j k' hk' p hp
      rcases State.setSession_eq_some.mp hk' with ⟨rfl, hchanged⟩ | ⟨-, hold⟩
      · cases hchanged
        rcases List.mem_append.mp hp with hold | hadd
        · exact hs.own j k hk p hold
        · exact ⟨hflag, (hmem p hadd).1⟩
      · exact hs.own j k' hold p hp
    distinct := by
      -- the locals are as before
      have hlocals : ∀ j k', (s.setSession i (some ⟨k.peer, k.locals,
          k.registered ++ added req k.locals⟩)).sessions j = some k' →
          ∃ k₀, s.sessions j = some k₀ ∧ k₀.locals = k'.locals := by
        grind [State.setSession_eq_some]
      intro j j' k₁ k₂ hne h₁ h₂
      obtain ⟨k₁', h₁', heq₁⟩ := hlocals j k₁ h₁
      obtain ⟨k₂', h₂', heq₂⟩ := hlocals j' k₂ h₂
      rw [← heq₁, ← heq₂]
      exact hs.distinct j j' k₁' k₂' hne h₁' h₂'
    nodup := by
      rw [pairs_addAll, List.nodup_append]
      refine ⟨hs.nodup, hnodup, fun p hp q hq heq => ?_⟩
      exact hs.not_mem_pairs hk hflag (hmem q hq).1 (hmem q hq).2 (heq ▸ hp)
    mem_iff := by
      intro p
      rw [pairs_addAll, List.mem_append, hs.mem_iff]
      exact (State.exists_registered_setSession hk rfl p).symm }

omit [Machine] in
/-- A disconnecting provider takes its own entries with it. -/
theorem Inv.disconnect {s : State} (hs : Inv s) {i : Nat} {k : Session}
    (hk : s.sessions i = some k) (hflag : k.locals.isServiceProvider = true) :
    Inv { s.setSession i none with registry := s.registry.without k.locals.providerAddr } where
  agree := hs.agree.without _
  own := by
    intro j k' hk' p hp
    have := hs.own j k'
    grind [State.setSession_eq_some]
  distinct := by
    intro j j' k₁ k₂ hne h₁ h₂
    have := hs.distinct j j' k₁ k₂ hne
    grind [State.setSession_eq_some]
  nodup := by
    rw [pairs_without]
    exact hs.nodup.filter _
  mem_iff := by
    intro p
    rw [pairs_without, List.mem_filter, hs.mem_iff]
    simp only [State.setSession_eq_some]
    have := hs.own
    have := hs.distinct
    grind

theorem Inv.step {s t : State} {a : Action} (hs : Inv s)
    (h : Lts.Restrict Step WellBehaved s a t) : Inv t := by
  obtain ⟨hc, hstep⟩ := h
  rcases hstep.inv hs.agree with ⟨i, peer, rfl, hi, rfl⟩ | ⟨i, req, k, rfl, hk, rfl⟩ |
    ⟨i, k, rfl, hk, hflag, rfl⟩
  · exact hs.accept hi peer
  · have hk' := hc k hk
    split at hk'
    · next hflag => exact hs.register hk hflag hk'.1 hk'.2
    · next hflag =>
      obtain ⟨addr, haddr, hother⟩ := hk'
      exact hs.announce hk hflag haddr hother
  · exact hs.disconnect hk hflag

omit [Machine] in
/-- No address has a service twice. -/
theorem Inv.nodup_services {s : State} (hs : Inv s) (addr : Bytes) :
    (s.registry.services addr).Nodup := by
  have hpairs : s.registry.addressToService.pairs.Nodup :=
    (List.Perm.nodup_iff hs.agree).mp (hs.nodup.map Prod.swap_injective)
  exact Multimap.nodup_map_val_equalRange hpairs addr

/-- A well-behaved session brings nothing down: a connected one can be served,
when the answer can be sent, or disconnect whenever it likes. -/
theorem Inv.enabled {s : State} (hs : Inv s) {i : Nat} {k : Session} (hk : s.sessions i = some k) :
    (∀ req, WellBehaved s (.receive i req) → Answerable s.registry req →
      ∃ t, Step s (.receive i req) t) ∧
      (WellBehaved s (.disconnect i) → ∃ t, Step s (.disconnect i) t) := by
  refine ⟨fun req hc hanswer => ?_, fun hc => ?_⟩
  · have hone : req.type = .kRpcServiceProvider → (announcedAddr k.peer req).isSome := by
      intro htype
      have hk' := hc k hk
      split at hk'
      · exact absurd htype hk'.1
      · obtain ⟨addr, haddr, -⟩ := hk'
        simp [haddr]
    obtain ⟨rsp, hmsg⟩ := handleMessage_eq k.locals hone hanswer
    exact ⟨_, .receive hk hmsg⟩
  · have hend : handleEnd k.locals s.registry =
        .ok (s.registry.without k.locals.providerAddr) := by
      rw [handleEnd_of_provider (hc k hk), hs.agree.unregisterService_eq,
        if_pos (hs.nodup_services _)]
    exact ⟨_, .disconnect hk hend⟩

/-- A name is answered with exactly the addresses of the connected sessions that
registered it, each once. -/
theorem Inv.discover {s : State} (hs : Inv s) {req : Protocol} {name : Bytes}
    (hreq : Names req name) :
    ∃ addrs, Answers s.registry req (if addrs = [] then .kRpcNoMethod else .kRpcSuccess) addrs ∧
      addrs.Nodup ∧ ∀ addr, addr ∈ addrs ↔ ∃ i k, s.sessions i = some k ∧
        k.locals.providerAddr = addr ∧ (name, addr) ∈ k.registered := by
  have hnodup : (s.registry.providers name).Nodup :=
    Multimap.nodup_map_val_equalRange hs.nodup name
  refine ⟨_, answers_providers s.registry hreq, hnodup, ?_⟩
  intro addr
  rw [mem_providers, hs.mem_iff]
  constructor
  · rintro ⟨i, k, hk, hp⟩
    exact ⟨i, k, hk, (hs.own i k hk _ hp).2.symm, hp⟩
  · rintro ⟨i, k, hk, -, hp⟩
    exact ⟨i, k, hk, hp⟩

end

/-! ## runs -/

/-- A provider at 127.0.0.1 announces port 1 and registers "s". -/
theorem registered_discovered_provider :
    letI := x86_64
    ∃ s : State, ∃ addrs, Answers s.registry discoverS .kRpcSuccess addrs ∧
      text "127:0:0:1:1" ∈ addrs := by
  let m := x86_64
  have h₁ := Lts.Run.single (R := Lts.Restrict Step Spares) (s := init)
    (a := Action.accept 0 (some loopback)) ⟨trivial, Step.accept (some loopback) rfl⟩
  have h₂ := h₁.snoc (a := Action.receive 0 (announce 1)) ⟨trivial, Step.receive rfl rfl⟩
  have h₃ := h₂.snoc (a := Action.receive 0 registerS) ⟨trivial, Step.receive rfl rfl⟩
  exact ⟨_, registered_discovered h₃ (i := 0) rfl (by decide +kernel) ⟨_, rfl⟩⟩

/-- A provider reconnects and registers "s" before its first connection drops. -/
theorem not_registered_discovered_reconnect :
    letI := x86_64
    ∃ (as : List Action) (s : State) (i : Nat) (k : Session) (service addr : Bytes)
      (req : Protocol), Lts.Run Step init as s ∧ s.sessions i = some k ∧
        (service, addr) ∈ k.registered ∧ Names req service ∧
        ¬ ∃ addrs, Answers s.registry req .kRpcSuccess addrs ∧ addr ∈ addrs := by
  let m := x86_64
  have h₁ := Lts.Run.single (Step.accept (s := init) (i := 0) (some loopback) rfl)
  have h₂ := h₁.snoc (a := Action.receive 0 (announce 1)) (Step.receive rfl rfl)
  have h₃ := h₂.snoc (Step.accept (i := 1) (some loopback) rfl)
  have h₄ := h₃.snoc (a := Action.receive 1 (announce 1)) (Step.receive rfl rfl)
  have h₅ := h₄.snoc (a := Action.receive 1 registerS) (Step.receive rfl rfl)
  have h₆ := h₅.snoc (a := Action.disconnect 0) (Step.disconnect rfl
    ((handleEnd_of_provider rfl _).trans
      (((agree_of_steps h₅).unregisterService_eq _).trans (if_pos (by decide +kernel)))))
  refine ⟨_, _, 1, _, text "s", text "127:0:0:1:1", discoverS, h₆, rfl, ?_, ⟨_, rfl⟩, ?_⟩
  · decide +kernel
  · rintro ⟨addrs, hanswers, -⟩
    exact absurd hanswers.errCode (by decide +kernel)

end Registry
end XzmjxRpc
