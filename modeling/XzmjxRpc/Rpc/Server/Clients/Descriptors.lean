import XzmjxRpc.Rpc.Server.Clients.Invariant

/-!
# XzmjxRpc.Rpc.Server.Clients.Descriptors

How the clients of a server share the kernel's descriptors.

* `descriptors_of_run` — who holds which one, and what is closed, in a run in
  which no two calls of `close()` for one socket overlap (`Apart`);
* `not_open_overlapping` — a run in which two do.
-/

namespace XzmjxRpc
namespace Clients

variable [Machine] {services : Services}

/-! ## one step -/

/-- What a step does with the socket: nothing, a call of `close()`, or a statement of one. -/
theorem Client.next_socket {c c' : Client} {a : Act} {closed : List Nat}
    (hn : c.next services a = some (c', closed)) :
    (c'.socket = c.socket ∧ closed = []) ∨
      (c'.socket = c.socket.close ∧ closed = [] ∧ (c.Apart a → c.socket.closing = [])) ∨
      ∃ k stmt, c.socket.closing[k]? = some stmt ∧
        c.socket.closeStmt k stmt = (c'.socket, closed) := by
  have hstop : c.stopTimer.socket = c.socket := by
    unfold Client.stopTimer
    split <;> rfl
  cases a with
  | start | test | recvThrow =>
      simp only [Client.next] at hn
      split at hn <;> cases hn
      exact .inl ⟨rfl, rfl⟩
  | recv msg =>
      simp only [Client.next] at hn
      split at hn
      · split at hn <;> cases hn
        · exact .inl ⟨hstop, rfl⟩
        · exact .inl ⟨rfl, rfl⟩
      · cases hn
  | stopTimer =>
      simp only [Client.next] at hn
      split at hn <;> cases hn
      exact .inl ⟨hstop, rfl⟩
  | handOver =>
      simp only [Client.next] at hn
      split at hn <;> cases hn
      exact .inl ⟨rfl, rfl⟩
  | expire t =>
      simp only [Client.next] at hn
      split at hn <;> cases hn
      exact .inr (.inl ⟨rfl, rfl, id⟩)
  | closing k =>
      obtain ⟨stmt, hk, hn⟩ := Option.bind_eq_some_iff.mp hn
      cases hn
      exact .inr (.inr ⟨k, stmt, hk, rfl⟩)
  | handle k =>
      simp only [Client.next] at hn
      repeat' split at hn
      all_goals cases hn
      all_goals exact .inl ⟨rfl, rfl⟩
  | send k ok =>
      simp only [Client.next] at hn
      split at hn <;> cases hn
      exact .inl ⟨rfl, rfl⟩
  | release =>
      simp only [Client.next, Client.endSession] at hn
      split at hn
      · cases hn
        by_cases hc : c.socket.isConnect = true
        · exact .inr (.inl ⟨if_pos hc, rfl, fun hap => hap hc⟩)
        · exact .inl ⟨if_neg hc, rfl⟩
      · cases hn

/-- One call of `close()` at a time stays so. -/
theorem Client.next_settled {c c' : Client} {a : Act} {closed : List Nat}
    (h : c.socket.Settled) (hdown : c.socket.Down) (hap : c.Apart a)
    (hn : c.next services a = some (c', closed)) : c'.socket.Settled := by
  rcases Client.next_socket hn with ⟨hsock, -⟩ | ⟨hsock, -, hnil⟩ | ⟨k, stmt, hk, hsock⟩
  · exact hsock ▸ h
  · exact hsock ▸ h.close (hnil hap)
  · have hstep := h.closeStmt hdown hk
    rwa [hsock] at hstep

/-- A step leaves the descriptor alone, or it closes just that one. -/
theorem Client.next_holds {c c' : Client} {a : Act} {closed : List Nat} (h : c.socket.Settled)
    (hn : c.next services a = some (c', closed)) :
    (c'.socket.holds = c.socket.holds ∧ closed = []) ∨
      (c'.socket.holds = none ∧ closed = c.socket.holds.toList) := by
  rcases Client.next_socket hn with ⟨hsock, hcl⟩ | ⟨hsock, hcl, -⟩ | ⟨k, stmt, hk, hsock⟩
  · exact .inl ⟨congrArg Socket.holds hsock, hcl⟩
  · exact .inl ⟨hsock ▸ Socket.close_holds, hcl⟩
  · have hstep := h.closeStmt_holds hk
    rwa [hsock] at hstep

/-! ## the invariant -/

/-- How the clients and the rest of the process, which had the descriptors `base`
before, share the kernel's table. -/
structure Shared (base : Finset Nat) (s : State) : Prop where
  /-- Nothing else is open than what was, what clients hold and what was refused. -/
  open_eq : s.openFds = base ∪ s.leaked ∪ s.held.toFinset
  /-- No two clients hold the same descriptor. -/
  nodup : s.held.Nodup
  apart : Disjoint (base ∪ s.leaked) s.held.toFinset

/-- What holds of the server between steps. -/
structure Inv (services : Services) (base : Finset Nat) (s : State) : Prop where
  clients : ∀ c ∈ s.clients, c.Inv services
  settled : ∀ c ∈ s.clients, c.socket.Settled
  shared : Shared base s

omit [Machine] in
/-- The descriptors held, around client `i`. -/
theorem held_set {s : State} {i : Nat} {c : Client} (hc : s.clients[i]? = some c) (c' : Client)
    (fds : Finset Nat) :
    ∃ l₁ l₂, s.held = l₁ ++ c.socket.holds.toList ++ l₂ ∧
      ({ s with clients := s.clients.set i c', openFds := fds } : State).held =
        l₁ ++ c'.socket.holds.toList ++ l₂ := by
  obtain ⟨hi, rfl⟩ := List.getElem?_eq_some_iff.mp hc
  obtain ⟨l₁, l₂, hl, -, hset⟩ :
      ∃ l₁ l₂, s.clients = l₁ ++ s.clients[i] :: l₂ ∧ l₁.length = i ∧
        s.clients.set i c' = l₁ ++ c' :: l₂ :=
    List.exists_of_set hi
  have hcons (d : Client) : (l₁ ++ d :: l₂).filterMap (·.socket.holds) =
      l₁.filterMap (·.socket.holds) ++ d.socket.holds.toList ++
        l₂.filterMap (·.socket.holds) := by
    rw [List.filterMap_append, List.filterMap_cons, List.append_assoc]
    cases d.socket.holds <;> rfl
  refine ⟨l₁.filterMap (·.socket.holds), l₂.filterMap (·.socket.holds), ?_, ?_⟩
  · rw [← hcons]
    exact congrArg (List.filterMap (·.socket.holds)) hl
  · rw [← hcons]
    exact congrArg (List.filterMap (·.socket.holds)) hset

omit [Machine] in
theorem Shared.init (base : Finset Nat) : Shared base (State.init base) where
  open_eq := by
    simp [State.init, State.held]
  nodup := List.nodup_nil
  apart := Finset.disjoint_empty_right _

omit [Machine] in
theorem Shared.accept {base : Finset Nat} {s : State} (h : Shared base s) {fd : Nat}
    (hfd : fd ∉ s.openFds) :
    Shared base { s with
      clients := s.clients ++ [{ socket := { sockFd := some fd } }]
      openFds := insert fd s.openFds } := by
  have hheld : ({ s with clients := s.clients ++ [{ socket := { sockFd := some fd } }],
                         openFds := insert fd s.openFds } : State).held = s.held ++ [fd] :=
    List.filterMap_append
  rw [h.open_eq] at hfd
  simp only [Finset.mem_union, List.mem_toFinset, not_or] at hfd
  refine ⟨?_, ?_, ?_⟩
  · rw [hheld, List.toFinset_append]
    show insert fd s.openFds = _
    rw [h.open_eq]
    ext x
    simp only [Finset.mem_insert, Finset.mem_union, List.mem_toFinset, List.mem_singleton]
    tauto
  · rw [hheld]
    exact List.nodup_append_comm.mp (List.nodup_cons.mpr ⟨hfd.2, h.nodup⟩)
  · rw [hheld, List.toFinset_append, Finset.disjoint_union_right]
    refine ⟨h.apart, ?_⟩
    rw [List.toFinset_cons, List.toFinset_nil, Finset.disjoint_right]
    intro x hx
    cases Finset.mem_singleton.mp hx
    simpa using hfd.1

omit [Machine] in
theorem Shared.refuse {base : Finset Nat} {s : State} (h : Shared base s) {fd : Nat}
    (hfd : fd ∉ s.openFds) :
    Shared base { s with leaked := insert fd s.leaked, openFds := insert fd s.openFds } := by
  rw [h.open_eq] at hfd
  simp only [Finset.mem_union, List.mem_toFinset, not_or] at hfd
  refine ⟨?_, h.nodup, ?_⟩
  · show insert fd s.openFds = base ∪ insert fd s.leaked ∪ s.held.toFinset
    rw [h.open_eq]
    ext x
    simp only [Finset.mem_insert, Finset.mem_union]
    tauto
  · have hd := h.apart
    rw [Finset.disjoint_right] at hd ⊢
    intro x hx
    show x ∉ base ∪ insert fd s.leaked
    have hx' : x ∈ s.held := List.mem_toFinset.mp hx
    have hne : x ≠ fd := fun he => hfd.2 (he ▸ hx')
    have := hd hx
    simp only [Finset.mem_union, Finset.mem_insert, not_or] at this ⊢
    exact ⟨this.1, hne, this.2⟩

omit [Machine] in
/-- A descriptor that one client holds is closed. -/
theorem Shared.closed {base : Finset Nat} {s : State} (h : Shared base s) {clients : List Client}
    {l₁ l₂ fds : List Nat} (hheld : s.held = l₁ ++ fds ++ l₂)
    (hheld' : ({ s with clients := clients, openFds := s.openFds \ fds.toFinset } : State).held =
      l₁ ++ l₂) :
    Shared base { s with clients := clients, openFds := s.openFds \ fds.toFinset } := by
  have hnodup := h.nodup
  have hapart := h.apart
  rw [hheld, List.nodup_append, List.nodup_append] at hnodup
  rw [hheld, Finset.disjoint_right] at hapart
  refine ⟨?_, ?_, ?_⟩
  · rw [hheld']
    show s.openFds \ fds.toFinset = _
    rw [h.open_eq, hheld]
    ext x
    have hx := @hapart x
    have hl₁ : x ∈ l₁ → x ∉ fds := fun hx hf => hnodup.1.2.2 x hx x hf rfl
    have hl₂ : x ∈ fds → x ∉ l₂ := fun hf hx =>
      hnodup.2.2 x (List.mem_append_right l₁ hf) x hx rfl
    simp only [List.toFinset_append, Finset.mem_sdiff, Finset.mem_union, List.mem_toFinset] at hx ⊢
    tauto
  · rw [hheld']
    have hsub : (l₁ ++ l₂).Sublist (l₁ ++ fds ++ l₂) :=
      (List.sublist_append_left l₁ fds).append (List.Sublist.refl l₂)
    exact (hheld ▸ h.nodup).sublist hsub
  · rw [hheld', Finset.disjoint_right]
    intro x hx
    refine hapart ?_
    simp only [List.toFinset_append, Finset.mem_union] at hx ⊢
    tauto

omit [Machine] in
/-- A step of a client that leaves its descriptor alone or closes just that one. -/
theorem Shared.client {base : Finset Nat} {s : State} (h : Shared base s) {i : Nat}
    {c c' : Client} (hc : s.clients[i]? = some c) {closed : List Nat}
    (hholds : (c'.socket.holds = c.socket.holds ∧ closed = []) ∨
      (c'.socket.holds = none ∧ closed = c.socket.holds.toList)) :
    Shared base
      { s with clients := s.clients.set i c', openFds := s.openFds \ closed.toFinset } := by
  obtain ⟨l₁, l₂, hheld, hheld'⟩ := held_set hc c' (s.openFds \ closed.toFinset)
  rcases hholds with ⟨hfd, rfl⟩ | ⟨hfd, rfl⟩
  · rw [hfd, ← hheld] at hheld'
    refine ⟨?_, hheld' ▸ h.nodup, hheld' ▸ h.apart⟩
    rw [hheld']
    show s.openFds \ (∅ : Finset Nat) = _
    rw [Finset.sdiff_empty, h.open_eq]
  · rw [hfd, Option.toList_none, List.append_nil] at hheld'
    exact h.closed hheld hheld'

omit [Machine] in
/-- Two clients hold different descriptors. -/
theorem Shared.ne_of_ne {base : Finset Nat} {s : State} (h : Shared base s) {i j : Nat}
    {c d : Client} (hc : s.clients[i]? = some c) (hd : s.clients[j]? = some d) (hij : j ≠ i)
    {f : Nat} (hf : c.socket.holds = some f) : d.socket.holds ≠ some f := by
  intro hfd
  obtain ⟨l₁, l₂, hheld, hheld'⟩ := held_set hc { socket := { sockFd := none } } s.openFds
  have hnodup := h.nodup
  rw [hheld, hf, List.nodup_append, List.nodup_append] at hnodup
  -- without the descriptor of `c` that of `d` is still there
  have hmem : f ∈ l₁ ++ l₂ := by
    have hstay : (s.clients.set i { socket := { sockFd := none } })[j]? = some d := by
      rw [List.getElem?_set_ne (Ne.symm hij), hd]
    have hnone : (Socket.mk none true []).holds.toList = [] := rfl
    rw [hnone, List.append_nil] at hheld'
    rw [← hheld']
    exact List.mem_filterMap.mpr ⟨d, List.mem_of_getElem? hstay, hfd⟩
  rcases List.mem_append.mp hmem with hmem | hmem
  · exact hnodup.1.2.2 f hmem f (List.mem_singleton_self f) rfl
  · exact hnodup.2.2 f (List.mem_append_right l₁ (List.mem_singleton_self f)) f hmem rfl

/-! ## every run -/

theorem Inv.step {base : Finset Nat} {s t : State} {a : Action} (h : Inv services base s)
    (hs : Lts.Restrict (Step services) Apart s a t) : Inv services base t := by
  obtain ⟨hap, hs⟩ := hs
  have hclients := hs.clients h.clients
  cases a with
  | accept fd =>
      simp only [Step, State.next] at hs
      split at hs <;> cases hs
      next hfd =>
      refine ⟨hclients, fun d hd => ?_, h.shared.accept hfd⟩
      rcases List.mem_append.mp hd with hd | hd
      · exact h.settled d hd
      · cases List.mem_singleton.mp hd
        exact ⟨Nat.zero_le 1, fun _ => rfl⟩
  | refuse fd =>
      simp only [Step, State.next] at hs
      split at hs <;> cases hs
      next hfd => exact ⟨hclients, h.settled, h.shared.refuse hfd⟩
  | client i a =>
      obtain ⟨c, c', closed, hc, hn, rfl⟩ := hs.client_inv
      have hmem := List.mem_of_getElem? hc
      have hset := h.settled c hmem
      refine ⟨hclients, fun d hd => ?_, h.shared.client hc (Client.next_holds hset hn)⟩
      rcases List.mem_or_eq_of_mem_set hd with hd | rfl
      · exact h.settled d hd
      · exact Client.next_settled hset (h.clients c hmem).down (hap c hc) hn

theorem inv_of_run {base : Finset Nat} {as : List Action} {s : State}
    (h : Lts.Run (Lts.Restrict (Step services) Apart) (.init base) as s) : Inv services base s :=
  h.invariant (I := Inv services base)
    ⟨fun _ hc => absurd hc List.not_mem_nil, fun _ hc => absurd hc List.not_mem_nil, .init base⟩
    fun _ _ _ hi hs => hi.step hs

/-- **Descriptors**: where no two calls of `close()` for one socket overlap, what
is open is what was open before, what clients hold, each its own, and what `init`
refused; a client that is done has none; and whatever is passed to `::close` for
a client, and whenever, is open, is the client's own and nobody else's. -/
theorem descriptors_of_run {base : Finset Nat} {as : List Action} {s : State}
    (h : Lts.Run (Lts.Restrict (Step services) Apart) (.init base) as s) :
    s.openFds = base ∪ s.leaked ∪ s.held.toFinset ∧ s.held.Nodup ∧
      Disjoint (base ∪ s.leaked) s.held.toFinset ∧
      (∀ c ∈ s.clients, c.session = false → c.loop ≠ .entry → c.socket.closing = [] →
        c.socket.sockFd = none) ∧
      ∀ (i : Nat) (c c' : Client) (a : Act) (closed : List Nat), s.clients[i]? = some c →
        c.next services a = some (c', closed) →
        ∀ f ∈ closed, f ∈ s.openFds ∧ f ∉ base ∪ s.leaked ∧ c.socket.holds = some f ∧
          ∀ (j : Nat) (d : Client), j ≠ i → s.clients[j]? = some d →
            d.socket.holds ≠ some f := by
  have hi := inv_of_run h
  refine ⟨hi.shared.open_eq, hi.shared.nodup, hi.shared.apart, fun c hc hs hl hnil => ?_, ?_⟩
  · rcases (hi.clients c hc).released hs with he | ⟨-, hdis | hne⟩
    · exact absurd he hl
    · have hagree := (hi.settled c hc).agree (by rw [hnil]; nofun)
      rw [hdis] at hagree
      exact Option.not_isSome_iff_eq_none.mp (by rw [← hagree]; decide)
    · exact absurd hnil hne
  · intro i c c' a closed hc hn f hf
    have hmem := List.mem_of_getElem? hc
    have hfd : c.socket.holds = some f := by
      rcases Client.next_holds (hi.settled c hmem) hn with ⟨-, rfl⟩ | ⟨-, rfl⟩
      · cases hf
      · exact Option.mem_toList.mp hf
    have hheld : f ∈ s.held.toFinset :=
      List.mem_toFinset.mpr (List.mem_filterMap.mpr ⟨c, hmem, hfd⟩)
    refine ⟨?_, Finset.disjoint_right.mp hi.shared.apart hheld, hfd, fun j d hij hd => ?_⟩
    · rw [hi.shared.open_eq]
      exact Finset.mem_union_right _ hheld
    · exact hi.shared.ne_of_ne hc hd hij hfd

/-! ## runs -/

/-- The timer of a client cuts it off after a heartbeat; the next client gets its
descriptor before its `Socket` has forgotten it. -/
def cutOff : List Action :=
  served ++ [.client 0 (.expire 1), .client 0 (.closing 0), .client 0 (.closing 0),
    .client 0 (.closing 0), .client 0 (.closing 0), .accept 4, .client 0 (.closing 0),
    .client 0 .test, .client 0 .release]

omit [Machine] in
theorem run_cutOff : letI := x86_64
    Lts.Run (Lts.Restrict (Step fun _ => none) Apart) (.init {3}) cutOff
      { clients := [{ servedClient with
                        socket := { sockFd := none, isConnect := false }, loop := .ended,
                        session := false, live := ∅ },
                    { socket := { sockFd := some 4 } }]
        openFds := {4, 3} } :=
  let _ := x86_64
  Lts.Run.of_foldlM (fun s a => if Apart s a then s.next (fun _ => none) a else none)
    (fun _ _ _ h => Option.ite_none_right_eq_some.mp h) rfl

omit [Machine] in
/-- The descriptor is the new client's. -/
theorem descriptors_of_run_cutOff : letI := x86_64
    ∃ s : State, Lts.Run (Lts.Restrict (Step fun _ => none) Apart) (.init {3}) cutOff s ∧
      s.held = [4] ∧ s.held.Nodup :=
  let _ := x86_64
  ⟨_, run_cutOff, rfl, (descriptors_of_run run_cutOff).2.1⟩

/-- The timer of a client expires while it hangs up: timer and session both find
the socket open, and one of them closes it when the next client has the descriptor. -/
def overlapping : List Action :=
  [.accept 4, .client 0 .start, .client 0 .test, .client 0 (.expire 0),
    .client 0 (.recv none), .client 0 .release, .client 0 (.closing 0), .client 0 (.closing 1),
    .client 0 (.closing 0), .client 0 (.closing 1), .client 0 (.closing 0),
    .client 0 (.closing 1), .client 0 (.closing 0), .accept 4, .client 0 (.closing 1)]

omit [Machine] in
/-- A client that is connected has lost its descriptor. -/
theorem not_open_overlapping : letI := x86_64
    ∃ s : State, Lts.Run (Step fun _ => none) (.init {3}) overlapping s ∧
      ∃ d, s.clients[1]? = some d ∧ d.socket.isConnect = true ∧ d.socket.holds = some 4 ∧
        4 ∉ s.openFds :=
  let _ := x86_64
  ⟨_, Lts.Run.of_foldlM (State.next fun _ => none) (fun _ _ _ h => h) rfl, _, rfl, rfl, rfl,
    by decide⟩

end Clients
end XzmjxRpc
