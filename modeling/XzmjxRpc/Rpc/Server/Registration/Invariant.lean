import XzmjxRpc.Rpc.Server.Registration

/-!
# XzmjxRpc.Rpc.Server.Registration.Invariant

What a server sends to the registry, over whole runs in which it is bound to
one registry and registers its services once.

* `sent_of_run`: the announcement comes first, then services, none of them
  twice, then heartbeats, and a `start` that has gone through its loop leaves
  out none of the services it found.
* `start_done_iff`: the announcement and the services have to fit into the
  channel, since `start` fills it before it starts the loop that empties it.
-/

namespace XzmjxRpc
namespace RpcServer

/-! ## the keys of the map -/

theorem mem_insertName {name n : Name} {services : List Name} :
    n ∈ insertName name services ↔ n = name ∨ n ∈ services := by
  induction services with
  | nil => simp [insertName]
  | cons m services ih =>
      unfold insertName
      split
      · exact List.mem_cons
      · split
        · next heq => simp [heq]
        · rw [List.mem_cons, ih, List.mem_cons]
          exact or_left_comm

theorem pairwise_insertName {services : List Name} (h : services.Pairwise Name.Before)
    (name : Name) : (insertName name services).Pairwise Name.Before := by
  induction services with
  | nil => exact List.pairwise_singleton _ name
  | cons m services ih =>
      have hm : ∀ {n}, n ∈ services → m.Before n := List.rel_of_pairwise_cons h
      unfold insertName
      split
      · next hlt =>
        refine List.pairwise_cons.mpr ⟨fun n hn => ?_, h⟩
        rcases List.mem_cons.mp hn with rfl | hn
        · exact hlt
        · exact hlt.trans (hm hn)
      · split
        · exact h
        · next hnot hne =>
          refine List.pairwise_cons.mpr ⟨fun n hn => ?_, ih h.of_cons⟩
          rcases mem_insertName.mp hn with rfl | hn
          · by_contra hmn
            exact hne (Name.eq_of_not_before hnot hmn)
          · exact hm hn

theorem nodup_of_pairwise {services : List Name} (h : services.Pairwise Name.Before) :
    services.Nodup := h.imp Name.Before.ne

/-- The loop is over when no key comes after the last one. -/
theorem nextService_eq_none {services : List Name} {last : Option Name} :
    nextService services last = none ↔ ∀ n ∈ services, ¬ ∀ l ∈ last, l.Before n := by
  simp [nextService, Option.all_eq_true]

/-- The next key comes after the last one, and no key is in between. -/
theorem nextService_eq_some {services : List Name} (h : services.Pairwise Name.Before)
    {last : Option Name} {name : Name} (hnext : nextService services last = some name) :
    name ∈ services ∧ (∀ l ∈ last, l.Before name) ∧
      ∀ n ∈ services, (∀ l ∈ last, l.Before n) → n = name ∨ name.Before n := by
  obtain ⟨hafter, before, rest, rfl, hbefore⟩ := List.find?_eq_some_iff_append.mp hnext
  simp only [Option.all_eq_true, decide_eq_true_eq] at hafter
  refine ⟨by simp, hafter, fun n hn hlast => ?_⟩
  rcases List.mem_append.mp hn with hn | hn
  · have hskip := hbefore n hn
    simp only [Bool.not_eq_true', Option.all_eq_false, decide_eq_false_iff_not] at hskip
    obtain ⟨l, hl, hnot⟩ := hskip
    exact absurd (hlast l hl) hnot
  · rcases List.mem_cons.mp hn with rfl | hn
    · exact .inl rfl
    · exact .inr (List.rel_of_pairwise_cons (List.pairwise_append.mp h).2.1 hn)

/-! ## the invariant -/

section
variable [Machine]

/-- Nothing runs that sends or receives. -/
structure State.Idle (s : State) : Prop where
  timers : s.timers = []
  beating : s.beating = 0
  sendLoops : s.sendLoops = 0
  recvLoops : s.recvLoops = 0
  sent : s.sent = []
  chan : s.chan = s.queued

/-- `start` has queued its registrations. -/
def State.Done (s : State) : Prop := s.started = true ∧ s.pending = none

/-- The announcement of a port, registrations and heartbeats. -/
def registration (port : BitVec 32) (services : List Name) (heartbeats : Nat) : List Protocol :=
  providerMsg port :: (services.map registerMsg ++ List.replicate heartbeats .heartbeat)

/-- What holds of a server that is bound to one registry and registers once. -/
structure Inv (s : State) : Prop where
  sorted : s.services.Pairwise Name.Before
  promised : ∀ n ∈ s.promised, n ∈ s.services
  promised_sorted : s.promised.Pairwise Name.Before
  registered_sorted : s.registered.Pairwise Name.Before
  /-- The registrations are in the channel all at once. -/
  few : s.registered.length < sendChanSize
  idle : ¬ s.Done → s.Idle
  unbound : s.session = none → s.pending = none ∧ s.started = false ∧ s.queued = []
  fresh : s.started = false →
    s.registered = [] ∧ s.promised = [] ∧ ∀ last, s.pending ≠ some (.register last)
  announcing : ∀ port, s.pending = some (.announce port) →
    s.bound = some port ∧ s.queued = [] ∧ s.started = false
  registering : ∀ last, s.pending = some (.register last) → s.session ≠ none ∧ s.isStop = true ∧
    s.registered.getLast? = last ∧ ∀ n ∈ s.promised, n ∈ s.registered ∨ ∀ l ∈ last, l.Before n
  done : s.Done → ∀ n ∈ s.promised, n ∈ s.registered
  queue : s.session ≠ none → (∀ port, s.pending ≠ some (.announce port)) →
    ∃ port heartbeats, s.bound = some port ∧
      s.queued = registration port s.registered heartbeats ∧ (¬ s.Done → heartbeats = 0)
  /-- Nothing is sent twice or out of order. -/
  kept : (s.sent ++ s.chan).Sublist s.queued
  sent_queued : s.gaveUp = false → s.sent <+: s.queued
  upright : s.session = some true → s.broken = false → s.gaveUp = false →
    s.sent ++ s.chan = s.queued

/-- A push is the announcement, or the registration of the next service. -/
theorem Step.push_inv {s t : State} (h : Step s .push t) : s.HasRoom ∧
    ((∃ port, s.pending = some (.announce port) ∧
        t = { s.enqueue (providerMsg port) with pending := none }) ∨
      ∃ last name, s.pending = some (.register last) ∧ nextService s.services last = some name ∧
        t = { s.enqueue (registerMsg name) with
          pending := some (.register (some name))
          registered := s.registered ++ [name] }) := by
  simp only [Step, State.next] at h
  split at h
  · next hroom =>
    refine ⟨hroom, ?_⟩
    split at h
    · next port hpending =>
      cases h
      exact .inl ⟨port, hpending, rfl⟩
    · next last hpending =>
      obtain ⟨name, hnext, rfl⟩ := Option.map_eq_some_iff.mp h
      exact .inr ⟨last, name, hpending, hnext, rfl⟩
    · cases h
  · cases h

omit [Machine] in
/-- A log that grows still begins with what was sent. -/
theorem prefix_enqueue {sent queued : List Protocol} (h : sent <+: queued) (msg : Protocol) :
    sent <+: queued ++ [msg] := h.trans (List.prefix_append ..)

omit [Machine] in
/-- And it still has what was sent and what is queued. -/
theorem kept_enqueue {sent chan queued : List Protocol} (h : (sent ++ chan).Sublist queued)
    (msg : Protocol) : (sent ++ (chan ++ [msg])).Sublist (queued ++ [msg]) := by
  rw [← List.append_assoc]
  exact h.append (.refl _)

/-- The announcement is the first message. -/
theorem Inv.announce {s : State} (hs : Inv s) {port : BitVec 32}
    (h : s.pending = some (.announce port)) :
    Inv { s.enqueue (providerMsg port) with pending := none } := by
  obtain ⟨hbound, hqueued, hstarted⟩ := hs.announcing port h
  obtain ⟨hregistered, hpromised, -⟩ := hs.fresh hstarted
  have hidle := hs.idle (by simp [State.Done, hstarted])
  exact { hs with
    idle := fun _ => { hidle with
      chan := by simp [State.enqueue, hidle.chan] }
    unbound := fun hsession => by
      have := (hs.unbound hsession).1
      simp [h] at this
    fresh := fun _ => ⟨hregistered, hpromised, by simp⟩
    announcing := by simp
    registering := by simp
    done := by simp [State.Done, State.enqueue, hstarted]
    queue := fun _ _ => ⟨port, 0, hbound, by
      simp [State.enqueue, hqueued, registration, hregistered], fun _ => rfl⟩
    kept := kept_enqueue hs.kept _
    sent_queued := fun hgaveUp => prefix_enqueue (hs.sent_queued hgaveUp) _
    upright := fun hsession hbroken hgaveUp => by
      rw [State.enqueue, ← List.append_assoc, hs.upright hsession hbroken hgaveUp] }

omit [Machine] in
/-- A sorted list grows at the end by what comes after its last element. -/
theorem pairwise_concat {names : List Name} (h : names.Pairwise Name.Before) {name : Name}
    (hlast : ∀ l ∈ names.getLast?, l.Before name) : (names ++ [name]).Pairwise Name.Before := by
  refine List.pairwise_append.mpr ⟨h, List.pairwise_singleton .., fun n hn m hm => ?_⟩
  rw [List.mem_singleton.mp hm]
  obtain ⟨before, l, rfl⟩ := (List.eq_nil_or_concat' names).resolve_left (List.ne_nil_of_mem hn)
  have hl : l.Before name := hlast l (by simp)
  rcases List.mem_append.mp hn with hn | hn
  · exact ((List.pairwise_append.mp h).2.2 n hn l (by simp)).trans hl
  · exact List.mem_singleton.mp hn ▸ hl

/-- One round of the loop over `m_services`. -/
theorem Inv.register {s : State} (hs : Inv s) {last : Option Name} {name : Name}
    (h : s.pending = some (.register last)) (hroom : s.HasRoom)
    (hnext : nextService s.services last = some name) :
    Inv { s.enqueue (registerMsg name) with
      pending := some (.register (some name))
      registered := s.registered ++ [name] } := by
  obtain ⟨hsession, hstop, hlast, hpromised⟩ := hs.registering last h
  obtain ⟨-, hafter, hbetween⟩ := nextService_eq_some hs.sorted hnext
  have hnot : ¬ s.Done := by simp [State.Done, h]
  have hidle := hs.idle hnot
  have hstarted : s.started = true := by
    by_contra hfresh
    exact (hs.fresh (by simpa using hfresh)).2.2 last h
  obtain ⟨port, heartbeats, hbound, hqueued, hzero⟩ := hs.queue hsession (by simp [h])
  rw [hzero hnot] at hqueued
  exact { hs with
    registered_sorted := pairwise_concat hs.registered_sorted (hlast ▸ hafter)
    few := by
      -- the announcement and the registrations are still in the channel
      rw [State.HasRoom, hidle.chan, hqueued] at hroom
      simpa [registration] using hroom
    idle := fun _ => { hidle with
      chan := by simp [State.enqueue, hidle.chan] }
    unbound := fun hnone => absurd hnone hsession
    fresh := fun hfresh => by simp [State.enqueue, hstarted] at hfresh
    announcing := by simp
    registering := by
      rintro _ ⟨⟩
      refine ⟨hsession, hstop, List.getLast?_concat .., fun n hn => ?_⟩
      rcases hpromised n hn with hold | hlt
      · exact .inl (List.mem_append_left _ hold)
      · rcases hbetween n (hs.promised n hn) hlt with rfl | hlt
        · exact .inl (List.mem_append_right _ List.mem_cons_self)
        · exact .inr (by simpa using hlt)
    done := by simp [State.Done]
    queue := fun _ _ => ⟨port, 0, hbound, by
      simp [State.enqueue, hqueued, registration], fun _ => rfl⟩
    kept := kept_enqueue hs.kept _
    sent_queued := fun hgaveUp => prefix_enqueue (hs.sent_queued hgaveUp) _
    upright := fun hsession hbroken hgaveUp => by
      rw [State.enqueue, ← List.append_assoc, hs.upright hsession hbroken hgaveUp] }

/-- The rest of `start`, once the loop has come to its end. -/
theorem Inv.run {s : State} (hs : Inv s) {last : Option Name}
    (h : s.pending = some (.register last)) (hnext : nextService s.services last = none) :
    Inv s.run := by
  obtain ⟨hsession, -, -, hpromised⟩ := hs.registering last h
  have hnot : ¬ s.Done := by simp [State.Done, h]
  have hstarted : s.started = true := by
    by_contra hfresh
    exact (hs.fresh (by simpa using hfresh)).2.2 last h
  obtain ⟨port, heartbeats, hbound, hqueued, hzero⟩ := hs.queue hsession (by simp [h])
  exact { hs with
    idle := fun hnot => absurd ⟨hstarted, rfl⟩ hnot
    unbound := fun hnone => absurd hnone hsession
    fresh := fun hfresh => by simp [State.run, State.arm, hstarted] at hfresh
    announcing := by simp [State.run]
    registering := by simp [State.run]
    done := fun _ n hn => (hpromised n hn).resolve_right
      (nextService_eq_none.mp hnext n (hs.promised n hn))
    queue := fun _ _ => ⟨port, heartbeats, hbound, hqueued, fun _ => hzero hnot⟩ }

/-- `start` up to its first push. -/
theorem Inv.start {s : State} (hs : Inv s) (hpending : s.pending = none)
    (honce : s.isStop = true → s.started = false) : Inv s.start := by
  unfold State.start
  split
  · exact hs
  next hstop =>
  have hstop : s.isStop = true := by simpa using hstop
  have hstarted := honce hstop
  obtain ⟨hregistered, -, -⟩ := hs.fresh hstarted
  have hidle := hs.idle (by simp [State.Done, hstarted])
  split
  · next hsession =>
    obtain ⟨port, heartbeats, hbound, hqueued, hzero⟩ :=
      hs.queue (by simp [hsession]) (by simp [hpending])
    exact { hs with
      promised := fun n hn => hn
      promised_sorted := hs.sorted
      idle := fun _ => { hidle with }
      unbound := by simp [hsession]
      fresh := by simp
      announcing := by simp
      registering := by
        rintro _ ⟨⟩
        exact ⟨by simp [hsession], hstop, by simp [hregistered], fun n _ => .inr (by simp)⟩
      done := by simp [State.Done]
      queue := fun _ _ => ⟨port, 0, hbound, by
        rw [hqueued, hzero (by simp [State.Done, hstarted])], fun _ => rfl⟩ }
  · exact { hs with
      idle := fun _ => { hidle with }
      registering := by simp [hpending] }

/-- `bindRegistry` connects for the first time. -/
theorem Inv.bindRegistry {s : State} (hs : Inv s) (hsession : s.session = none) :
    Inv { s with
      session := some true
      broken := false
      pending := some (.announce s.port)
      bound := some s.port } := by
  obtain ⟨-, hstarted, hqueued⟩ := hs.unbound hsession
  have hidle := hs.idle (by simp [State.Done, hstarted])
  have hfresh := hs.fresh hstarted
  exact { hs with
    idle := fun _ => { hidle with }
    unbound := by simp
    fresh := fun _ => ⟨hfresh.1, hfresh.2.1, by simp⟩
    announcing := by
      rintro port ⟨⟩
      exact ⟨rfl, hqueued, hstarted⟩
    registering := by simp
    done := by simp [State.Done]
    queue := fun _ hnot => absurd rfl (hnot s.port)
    upright := fun _ _ _ => by rw [hidle.sent, hidle.chan, List.nil_append] }

/-- A method is registered. -/
theorem Inv.registerMethod {s : State} (hs : Inv s) (name : Name) :
    Inv { s with services := insertName name s.services } :=
  { hs with
    sorted := pairwise_insertName hs.sorted name
    promised := fun n hn => mem_insertName.mpr (.inr (hs.promised n hn))
    idle := fun hnot => { hs.idle hnot with } }

omit [Machine] in
/-- A message that leaves the channel unsent takes nothing else with it. -/
theorem kept_drop {sent rest queued : List Protocol} {msg : Protocol}
    (h : (sent ++ msg :: rest).Sublist queued) : (sent ++ rest).Sublist queued :=
  ((List.Sublist.refl sent).append (List.sublist_cons_self msg rest)).trans h

/-- A message leaves the channel. -/
theorem Inv.sendRound {s : State} (hs : Inv s) {msg : Protocol} {rest : List Protocol}
    (hchan : s.chan = msg :: rest) (hloops : s.sendLoops ≠ 0) : Inv (s.sendRound msg rest) := by
  have hdone : s.Done := by
    by_contra hnot
    exact hloops (hs.idle hnot).sendLoops
  have hkept : (s.sent ++ msg :: rest).Sublist s.queued := hchan ▸ hs.kept
  unfold State.sendRound
  split
  · next hsession =>
    split
    · next hbroken =>
      exact { hs with
        idle := fun hnot => absurd hdone hnot
        kept := kept_drop hkept
        upright := fun _ hnot => by simp [hbroken] at hnot }
    · next hbroken =>
      have hlog (hgaveUp : s.gaveUp = false) : (s.sent ++ [msg]) ++ rest = s.queued := by
        rw [← hs.upright hsession (by simpa using hbroken) hgaveUp, hchan, List.append_assoc,
          List.singleton_append]
      exact { hs with
        idle := fun hnot => absurd hdone hnot
        kept := by simpa using hkept
        sent_queued := fun hgaveUp => ⟨rest, hlog hgaveUp⟩
        upright := fun _ _ hgaveUp => hlog hgaveUp }
  · next hsession =>
    exact { hs with
      idle := fun hnot => absurd hdone hnot
      kept := kept_drop hkept
      upright := fun hconnected => absurd hconnected hsession }

/-- A message that is given up leaves it as well. -/
theorem Inv.giveUp {s : State} (hs : Inv s) {msg : Protocol} {rest : List Protocol}
    (hchan : s.chan = msg :: rest) (hloops : s.sendLoops ≠ 0) :
    Inv { s with chan := rest, gaveUp := true } := by
  have hdone : s.Done := by
    by_contra hnot
    exact hloops (hs.idle hnot).sendLoops
  exact { hs with
    idle := fun hnot => absurd hdone hnot
    kept := kept_drop (hchan ▸ hs.kept)
    sent_queued := nofun
    upright := fun _ _ => nofun }

/-- The session is closed, and timers and loops go. -/
theorem Inv.close {s : State} (hs : Inv s) (hdone : s.Done) {timers : List Nat}
    {recvLoops : Nat} :
    Inv { s.closeSession with timers := timers, recvLoops := recvLoops } :=
  have hsession : s.closeSession.session = none → s.session = none := by
    simp [State.closeSession]
  { hs with
    idle := fun hnot => absurd hdone hnot
    unbound := fun hnone => hs.unbound (hsession hnone)
    registering := by
      intro last hlast
      rw [State.closeSession, hdone.2] at hlast
      cases hlast
    queue := fun hsome => hs.queue fun hnone => hsome (by simp [State.closeSession, hnone])
    upright := fun hconnected => by
      cases h : s.session <;> simp [State.closeSession, h] at hconnected }

/-- A heartbeat is queued. -/
theorem Inv.beat {s : State} (hs : Inv s) (hdone : s.Done) {beating : Nat} {rsp : Bool} :
    Inv { (s.enqueue .heartbeat).arm with beating := beating, heartbeatRsp := rsp } :=
  { hs with
    idle := fun hnot => absurd hdone hnot
    unbound := fun hnone => by
      have hfresh := (hs.unbound hnone).2.1
      simp [hdone.1] at hfresh
    announcing := fun port hport => by
      have hnone := hdone.2
      rw [State.arm, State.enqueue, hnone] at hport
      cases hport
    queue := fun hsome hnot => by
      obtain ⟨port, heartbeats, hbound, hqueued, -⟩ := hs.queue hsome hnot
      refine ⟨port, heartbeats + 1, hbound, ?_, fun hnot => absurd hdone hnot⟩
      simp [State.arm, State.enqueue, hqueued, registration, List.replicate_succ']
    kept := kept_enqueue hs.kept _
    sent_queued := fun hgaveUp => prefix_enqueue (hs.sent_queued hgaveUp) _
    upright := fun hsession hbroken hgaveUp => by
      rw [State.arm, State.enqueue, ← List.append_assoc, hs.upright hsession hbroken hgaveUp] }

theorem Inv.step {s t : State} {a : Action} (hs : Inv s) (h : Lts.Restrict Step Once s a t) :
    Inv t := by
  obtain ⟨honce, hstep⟩ := h
  have hdone {n : Nat} (hn : n ≠ 0) (hidle : s.Idle → n = 0) : s.Done := by
    by_contra hnot
    exact hn (hidle (hs.idle hnot))
  cases a with
  | registerMethod name =>
      cases hstep
      exact hs.registerMethod name
  | bind port =>
      cases hstep
      exact { hs with idle := fun hnot => { hs.idle hnot with } }
  | bindRegistry connected =>
      simp only [Step, State.next] at hstep
      split at hstep
      · cases hstep
      · split at hstep <;> cases hstep
        · next hconnected => exact hs.bindRegistry (honce hconnected)
        · exact hs
  | start =>
      simp only [Step, State.next] at hstep
      split at hstep <;> cases hstep
      next hpending => exact hs.start (by simpa using hpending) honce
  | push =>
      obtain ⟨hroom, ⟨port, hpending, rfl⟩ | ⟨last, name, hpending, hnext, rfl⟩⟩ := hstep.push_inv
      · exact hs.announce hpending
      · exact hs.register hpending hroom hnext
  | run =>
      simp only [Step, State.next] at hstep
      split at hstep
      · next last hpending =>
        split at hstep <;> cases hstep
        next hnext => exact hs.run hpending hnext
      · cases hstep
  | stop =>
      cases hstep
      exact { hs with
        idle := fun hnot => { hs.idle hnot with }
        registering := fun last hlast => by
          obtain ⟨hsession, -, hrest⟩ := hs.registering last hlast
          exact ⟨hsession, rfl, hrest⟩ }
  | tick id =>
      simp only [Step, State.next] at hstep
      split at hstep
      · next hid =>
        have hdone : s.Done := by
          by_contra hnot
          simp [(hs.idle hnot).timers] at hid
        split at hstep <;> cases hstep
        · exact { hs with idle := fun hnot => absurd hdone hnot }
        · exact hs.close hdone
      · cases hstep
  | beat =>
      simp only [Step, State.next] at hstep
      split at hstep <;> cases hstep
      next hbeat => exact hs.beat (hdone hbeat.1 State.Idle.beating)
  | send =>
      simp only [Step, State.next] at hstep
      split at hstep
      · cases hstep
      · next msg rest hchan =>
        split at hstep <;> cases hstep
        next hloops => exact hs.sendRound hchan hloops
  | giveUp =>
      simp only [Step, State.next] at hstep
      split at hstep
      · cases hstep
      · next msg rest hchan =>
        split at hstep <;> cases hstep
        next hcond => exact hs.giveUp hchan hcond.1
  | recvHeartbeat =>
      simp only [Step, State.next] at hstep
      split at hstep <;> cases hstep
      exact { hs with idle := fun hnot => { hs.idle hnot with } }
  | recvNull =>
      simp only [Step, State.next] at hstep
      split at hstep <;> cases hstep
      next hloops => exact hs.close (hdone hloops State.Idle.recvLoops)
  | lose =>
      cases hstep
      exact { hs with
        idle := fun hnot => { hs.idle hnot with }
        upright := fun _ hbroken => by cases hbroken }

/-- A new server. -/
theorem inv_init : Inv {} where
  sorted := .nil
  promised := by simp
  promised_sorted := .nil
  registered_sorted := .nil
  few := by decide
  idle := fun _ => ⟨rfl, rfl, rfl, rfl, rfl, rfl⟩
  unbound := by simp
  fresh := by simp
  announcing := by simp
  registering := by simp
  done := by simp
  queue := by simp
  kept := .refl _
  sent_queued := fun _ => List.prefix_refl _
  upright := by simp

theorem inv_of_run {as : List Action} {s : State}
    (h : Lts.Run (Lts.Restrict Step Once) {} as s) : Inv s :=
  h.invariant inv_init fun _ _ _ hs hstep => hs.step hstep

/-! ## what is sent -/

/-- **What a server sends** the registry, in every run in which it is bound
once and registers once: whatever of its announcement, the registrations of
services, none of them twice, and heartbeats no write was given up of, in this
order; when the loop of `start` is over, no service that it found is left out.
As long as no write was given up, what is sent is a beginning of all that, and
nothing gets lost but with the connection. -/
theorem sent_of_run {as : List Action} {s : State}
    (h : Lts.Run (Lts.Restrict Step Once) {} as s) :
    s.registered.Nodup ∧ (s.Done → ∀ n ∈ s.promised, n ∈ s.registered) ∧
      (s.sent = [] ∨ ∃ port heartbeats, s.bound = some port ∧
        s.sent.Sublist (registration port s.registered heartbeats) ∧
        (s.gaveUp = false → s.sent <+: registration port s.registered heartbeats) ∧
        (s.session = some true → s.broken = false → s.gaveUp = false →
          s.sent ++ s.chan = registration port s.registered heartbeats)) := by
  have hs := inv_of_run h
  refine ⟨nodup_of_pairwise hs.registered_sorted, hs.done, ?_⟩
  by_cases hdone : s.Done
  · have hsession : s.session ≠ none := fun hnone => by
      have hfresh := (hs.unbound hnone).2.1
      simp [hdone.1] at hfresh
    obtain ⟨port, heartbeats, hbound, hqueued, -⟩ := hs.queue hsession (by simp [hdone.2])
    have hsent : s.sent.Sublist s.queued := (List.sublist_append_left ..).trans hs.kept
    exact .inr ⟨port, heartbeats, hbound, hqueued ▸ hsent, hqueued ▸ hs.sent_queued,
      hqueued ▸ hs.upright⟩
  · exact .inl (hs.idle hdone).sent

/-! ## room for the registrations -/

/-- `start` gets through its loop when all that is left has room. -/
theorem exists_run_done {before rest : List Name} {last : Option Name} {s : State}
    (hservices : s.services = before ++ rest)
    (hsorted : (before ++ rest).Pairwise Name.Before)
    (hbefore : ∀ n ∈ before, ∃ l ∈ last, ¬ l.Before n) (hrest : ∀ n ∈ rest, ∀ l ∈ last, l.Before n)
    (hpending : s.pending = some (.register last)) (hstarted : s.started = true)
    (hroom : s.chan.length + rest.length ≤ sendChanSize) :
    ∃ bs t, Lts.Run (Lts.Restrict Step Once) s bs t ∧ t.Done := by
  induction rest generalizing before last s with
  | nil =>
      have hnext : nextService s.services last = none := by
        rw [nextService_eq_none, hservices, List.append_nil]
        intro n hn hafter
        obtain ⟨l, hl, hnot⟩ := hbefore n hn
        exact hnot (hafter l hl)
      refine ⟨[.run], s.run, .single ⟨trivial, ?_⟩, hstarted, rfl⟩
      simp only [Step, State.next, hpending, hnext, if_true]
  | cons name rest ih =>
      have hnext : nextService s.services last = some name := by
        rw [nextService, hservices, List.find?_append, List.find?_eq_none.mpr, Option.none_or,
          List.find?_cons_of_pos]
        · simpa [Option.all_eq_true] using hrest name List.mem_cons_self
        · intro n hn
          obtain ⟨l, hl, hnot⟩ := hbefore n hn
          simp only [Option.all_eq_true, decide_eq_true_eq]
          exact fun hafter => hnot (hafter l hl)
      have hpush : Step s .push { s.enqueue (registerMsg name) with
          pending := some (.register (some name))
          registered := s.registered ++ [name] } := by
        have hhas : s.HasRoom := by
          rw [List.length_cons] at hroom
          unfold State.HasRoom
          omega
        simp only [Step, State.next, if_pos hhas, hpending, hnext, Option.map_some]
      have hnames := List.pairwise_append.mp hsorted
      have hservices' : ({ s.enqueue (registerMsg name) with
          pending := some (.register (some name))
          registered := s.registered ++ [name] } : State).services = before ++ [name] ++ rest := by
        simp [State.enqueue, hservices]
      have hbefore' : ∀ n ∈ before ++ [name], ∃ l ∈ some name, ¬ l.Before n := by
        intro n hn
        refine ⟨name, rfl, fun hlt => ?_⟩
        rcases List.mem_append.mp hn with hn | hn
        · exact (hnames.2.2 n hn name List.mem_cons_self).trans hlt |> Name.Before.irrefl n
        · exact Name.Before.irrefl n (List.mem_singleton.mp hn ▸ hlt)
      have hrest' : ∀ n ∈ rest, ∀ l ∈ some name, l.Before n := by
        rintro n hn _ ⟨⟩
        exact List.rel_of_pairwise_cons hnames.2.1 hn
      have hroom' : (s.enqueue (registerMsg name)).chan.length + rest.length ≤ sendChanSize := by
        rw [List.length_cons] at hroom
        simp only [State.enqueue, List.length_append, List.length_singleton]
        omega
      obtain ⟨bs, t, hrun, hdone⟩ :=
        ih hservices' (by simpa using hsorted) hbefore' hrest' rfl hstarted hroom'
      exact ⟨.push :: bs, t, (Lts.Run.single ⟨trivial, hpush⟩).append hrun, hdone⟩

/-- The services that `start` found stay those that it promises. -/
theorem promised_of_step {s t : State} {a : Action} (hs : s.started = true)
    (h : Lts.Restrict Step Once s a t) : t.started = true ∧ t.promised = s.promised := by
  obtain ⟨honce, hstep⟩ := h
  cases a with
  | start =>
      simp only [Step, State.next] at hstep
      split at hstep <;> cases hstep
      have hrunning : s.isStop = false := by
        by_contra hstop
        simp [hs, Once] at honce
        exact hstop honce
      simp [State.start, hrunning, hs]
  | push =>
      obtain ⟨-, ⟨port, -, rfl⟩ | ⟨last, name, -, -, rfl⟩⟩ := hstep.push_inv <;> exact ⟨hs, rfl⟩
  | _ =>
      simp only [Step, State.next] at hstep
      grind [State.enqueue, State.arm, State.closeSession, State.run, State.sendRound]

/-- **`start` on a server bound to a registry** gets through its registrations
exactly when there are fewer than 200 services, so that the channel takes them
after the announcement; otherwise it never does, whatever else happens, and
nothing is ever sent to the registry. -/
theorem start_done_iff {as : List Action} {s : State}
    (h : Lts.Run (Lts.Restrict Step Once) {} as s) (hpending : s.pending = none)
    (hstop : s.isStop = true) (hstarted : s.started = false) (hsession : s.session = some true) :
    ((∃ bs t, Lts.Run (Lts.Restrict Step Once) s.start bs t ∧ t.Done) ↔
        s.services.length < sendChanSize) ∧
      (sendChanSize ≤ s.services.length → ∀ bs t,
        Lts.Run (Lts.Restrict Step Once) s.start bs t → t.sent = [] ∧ t.pending ≠ none) := by
  have hs := inv_of_run h
  have hstart : s.start = { s with
      pending := some (.register none)
      started := true
      promised := s.services } := by
    rw [State.start, if_neg (by simp [hstop]), if_pos hsession]
  have hlater {bs : List Action} {t : State}
      (hrun : Lts.Run (Lts.Restrict Step Once) s.start bs t) :
      Inv t ∧ t.started = true ∧ t.promised = s.services := by
    refine Lts.Run.invariant (I := fun t => Inv t ∧ t.started = true ∧ t.promised = s.services)
      ⟨hs.start hpending fun _ => hstarted, by simp [hstart], by simp [hstart]⟩ ?_ hrun
    rintro t a u ⟨ht, hst, hpromised⟩ hstep
    obtain ⟨hsu, hpromised'⟩ := promised_of_step hst hstep
    exact ⟨ht.step hstep, hsu, hpromised'.trans hpromised⟩
  have hfew {bs : List Action} {t : State}
      (hrun : Lts.Run (Lts.Restrict Step Once) s.start bs t) (hdone : t.Done) :
      s.services.length < sendChanSize := by
    obtain ⟨ht, -, hpromised⟩ := hlater hrun
    -- all the services are among the registered ones, which fit
    have hsub : s.services ⊆ t.registered := fun n hn => ht.done hdone n (hpromised ▸ hn)
    exact (((nodup_of_pairwise hs.sorted).subperm hsub).length_le).trans_lt ht.few
  refine ⟨⟨fun ⟨bs, t, hrun, hdone⟩ => hfew hrun hdone, fun hlt => ?_⟩, fun hge bs t hrun => ?_⟩
  · have hidle := hs.idle (by simp [State.Done, hstarted])
    obtain ⟨port, heartbeats, -, hqueued, hzero⟩ :=
      hs.queue (by simp [hsession]) (by simp [hpending])
    have hchan : s.chan.length = 1 := by
      rw [hidle.chan, hqueued, hzero (by simp [State.Done, hstarted]), (hs.fresh hstarted).1]
      rfl
    have hnone : ∀ n ∈ s.services, ∀ l ∈ (none : Option Name), l.Before n :=
      fun _ _ _ h => nomatch h
    have hroom : s.start.chan.length + s.services.length ≤ sendChanSize := by
      simp only [hstart, hchan]
      omega
    have hservices : s.start.services = [] ++ s.services := by simp [hstart]
    exact exists_run_done hservices hs.sorted (fun _ h => nomatch h) hnone (by simp [hstart])
      (by simp [hstart]) hroom
  · obtain ⟨ht, hst, -⟩ := hlater hrun
    have hnot : ¬ t.Done := fun hdone => absurd (hfew hrun hdone) (not_lt.mpr hge)
    exact ⟨(ht.idle hnot).sent, fun hnone => hnot ⟨hst, hnone⟩⟩

end

/-! ## runs -/

/-- A server with the method "s" on port 1, bound to a registry. -/
def registerS : List Action :=
  [.registerMethod ⟨text "s", by decide⟩, .bind 1, .bindRegistry true, .push]

theorem exists_run_registerS :
    letI := x86_64
    ∃ s : State, Lts.Run (Lts.Restrict Step Once) {} registerS s ∧ s.pending = none ∧
      s.isStop = true ∧ s.started = false ∧ s.session = some true ∧ s.services.length = 1 := by
  let m := x86_64
  have h₁ := Lts.Run.single (R := Lts.Restrict Step Once) (s := {})
    (a := Action.registerMethod ⟨text "s", by decide⟩) ⟨by decide, rfl⟩
  have h₂ := h₁.snoc (a := Action.bind 1) ⟨by decide, rfl⟩
  have h₃ := h₂.snoc (a := Action.bindRegistry true) ⟨by decide, rfl⟩
  exact ⟨_, h₃.snoc (a := Action.push) ⟨by decide, rfl⟩, rfl, rfl, rfl, rfl, rfl⟩

/-- It starts, and sends the announcement. -/
theorem sent_of_run_registerS :
    letI := x86_64
    ∃ s : State, s.sent ≠ [] ∧ s.registered.Nodup ∧
      (s.Done → ∀ n ∈ s.promised, n ∈ s.registered) ∧
      (s.sent = [] ∨ ∃ port heartbeats, s.bound = some port ∧
        s.sent.Sublist (registration port s.registered heartbeats) ∧
        (s.gaveUp = false → s.sent <+: registration port s.registered heartbeats) ∧
        (s.session = some true → s.broken = false → s.gaveUp = false →
          s.sent ++ s.chan = registration port s.registered heartbeats)) := by
  let m := x86_64
  have h₁ := Lts.Run.single (R := Lts.Restrict Step Once) (s := {})
    (a := Action.registerMethod ⟨text "s", by decide⟩) ⟨by decide, rfl⟩
  have h₂ := h₁.snoc (a := Action.bind 1) ⟨by decide, rfl⟩
  have h₃ := h₂.snoc (a := Action.bindRegistry true) ⟨by decide, rfl⟩
  have h₄ := h₃.snoc (a := Action.push) ⟨by decide, rfl⟩
  have h₅ := h₄.snoc (a := Action.start) ⟨by decide, rfl⟩
  have h₆ := h₅.snoc (a := Action.push) ⟨by decide, rfl⟩
  have h₇ := h₆.snoc (a := Action.run) ⟨by decide, rfl⟩
  have h₈ := h₇.snoc (a := Action.send) ⟨by decide, rfl⟩
  exact ⟨_, List.cons_ne_nil _ _, sent_of_run h₈⟩

/-- It has one service, and gets through. -/
theorem start_done_iff_registerS :
    letI := x86_64
    ∃ s : State, s.services.length = 1 ∧
      ((∃ bs t, Lts.Run (Lts.Restrict Step Once) s.start bs t ∧ t.Done) ↔
        s.services.length < sendChanSize) ∧
      (sendChanSize ≤ s.services.length → ∀ bs t,
        Lts.Run (Lts.Restrict Step Once) s.start bs t → t.sent = [] ∧ t.pending ≠ none) := by
  let m := x86_64
  obtain ⟨s, hrun, hpending, hstop, hstarted, hsession, hlen⟩ := exists_run_registerS
  exact ⟨s, hlen, start_done_iff hrun hpending hstop hstarted hsession⟩

end RpcServer
end XzmjxRpc
