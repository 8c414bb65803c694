import XzmjxRpc.Rpc.Client.Lifecycle

/-!
# XzmjxRpc.Rpc.Client.Reconnect

A client whose `m_worker` happens to hold a scheduler serves the session of its
first connection, and no other: as long as no second `connect` succeeds, an
open client has an open channel and its two loops, and sends what is called;
after a second one it does not.  With anything else in `m_worker` no connection
is served.
-/

namespace XzmjxRpc
namespace RpcClient

variable {s t : State} {a : Action}

/-! ## a client connected once -/

/-- An open client that serves its session goes on serving it. -/
theorem Keeps.serves (h : Keeps s t) (hs : s.Serves) (ht : t.closed = false) : t.Serves where
  accepts := (h.open ht).2.trans hs.accepts
  sendLoop := (h.sendLoops hs.accepts).trans hs.sendLoop
  recvLoop := by
    obtain ⟨k, hk, hloop⟩ := hs.recvLoop
    refine ⟨k, h.session.trans hk, ?_⟩
    rcases h.recvLoops with heq | ⟨i, k', hk', hi, heq⟩ | ⟨i, k', hi, heq | ⟨hclosed, -⟩⟩
    · rwa [heq]
    · cases hk.symm.trans hk'
      rcases hloop with hloop | hloop <;> rw [hloop, List.getElem?_singleton] at hi
      · split at hi <;> cases hi
        next h0 => exact .inr (by rw [heq, hloop, h0, List.set_cons_zero])
      · split at hi <;> cases hi
    · rcases hloop with hloop | hloop <;> rw [hloop, List.getElem?_singleton] at hi
      · split at hi <;> cases hi
      · split at hi <;> cases hi
        next h0 => exact .inl (by rw [heq, hloop, h0, List.set_cons_zero])
    · rw [ht] at hclosed
      cases hclosed

/-- A client that was never connected. -/
structure State.Fresh (s : State) : Prop where
  closed : s.closed = true
  chanOpen : s.chanOpen = true
  sendLoops : s.sendLoops = 0
  recvLoops : s.recvLoops = []
  seqId : s.seqId = 0

theorem Keeps.fresh (h : Keeps s t) (hs : s.Fresh) (hseq : t.seqId = s.seqId) : t.Fresh := by
  obtain ⟨hclosed, hopen⟩ : t.closed = s.closed ∧ t.chanOpen = s.chanOpen := by
    rcases h.closing with heq | ⟨hopen, -⟩
    · exact heq
    · rw [hs.closed] at hopen
      cases hopen
  refine ⟨hclosed.trans hs.closed, hopen.trans hs.chanOpen,
    (h.sendLoops hs.chanOpen).trans hs.sendLoops, ?_, hseq.trans hs.seqId⟩
  rcases h.recvLoops with heq | ⟨i, _, -, hi, -⟩ | ⟨i, _, hi, -⟩
  · rw [heq, hs.recvLoops]
  all_goals
    rw [hs.recvLoops] at hi
    cases hi

/-- What holds of a client that connects at most once. -/
structure State.Inv (s : State) : Prop where
  fresh : s.session = none → s.Fresh
  serves : s.closed = false → s.Serves
  delivers : s.Delivers

theorem inv_init (worker : Worker) : (init worker).Inv where
  fresh _ := ⟨rfl, rfl, rfl, rfl, rfl⟩
  serves h := by cases h
  delivers _ h := absurd h (Nat.not_lt_zero _)

/-- A request that waits or was sent does so after a step. -/
theorem Carries.delivers (h : Carries s t) (hsession : t.session = s.session) (hs : s.Delivers)
    {n : Nat} (hn : n < s.seqId) :
    .request n ∈ t.chan ∨ ∃ k, t.session = some k ∧ (k, .request n) ∈ t.sent := by
  rw [hsession]
  rcases hs n hn with hchan | ⟨k, hk, hsent⟩
  · exact h.chan _ hchan
  · exact .inr ⟨k, hk, h.sent _ hsent⟩

theorem Step.delivers (h : Step s a t) (hs : s.Inv) (ha : a ≠ .connect true) : t.Delivers := by
  have hsession := (h.keeps ha).session
  have hcarries := h.carries
  intro n hn
  rcases hcarries.calls with hseq | ⟨-, hopen, hseq, hnew⟩
  · exact hcarries.delivers hsession hs.delivers (hseq ▸ hn)
  · rw [hseq] at hn
    rcases Nat.lt_succ_iff_lt_or_eq.mp hn with hn | rfl
    · exact hcarries.delivers hsession hs.delivers hn
    · exact .inl (hnew (hs.serves hopen).accepts)

/-- The first successful `connect` starts the two loops, with a scheduler. -/
theorem State.Fresh.connected (h : s.Fresh) (hworker : s.worker = .scheduler) :
    s.connected.Inv where
  fresh := nofun
  serves _ :=
    { accepts := h.chanOpen
      sendLoop := by
        change s.sendLoops + s.worker.started = 1
        rw [h.sendLoops, hworker]
        rfl
      recvLoop := by
        refine ⟨_, rfl, .inl ?_⟩
        change s.recvLoops ++ List.replicate s.worker.started none = [none]
        rw [h.recvLoops, hworker]
        rfl }
  delivers n hn := by
    have hseq : s.connected.seqId = 0 := h.seqId
    rw [hseq] at hn
    cases hn

/-- The invariant is kept as long as no second `connect` succeeds. -/
theorem Step.inv (h : Step s a t) (hs : s.Inv) (ha : ConnectsOnce s a) : t.Inv := by
  by_cases hconnect : a = .connect true
  · subst hconnect
    cases h
    obtain ⟨hsession, hworker⟩ := ha rfl
    exact (hs.fresh hsession).connected hworker
  · have hkeeps := h.keeps hconnect
    refine ⟨fun hnone => ?_, fun hopen => ?_, h.delivers hs hconnect⟩
    · rw [hkeeps.session] at hnone
      refine hkeeps.fresh (hs.fresh hnone) ?_
      rcases h.carries.calls with hseq | ⟨hsome, -⟩
      · exact hseq
      · exact absurd hnone hsome
    · exact hkeeps.serves (hs.serves (hkeeps.open hopen).1) hopen

theorem inv_of_run {w : Worker} {as : List Action}
    (h : Lts.Run (Lts.Restrict Step ConnectsOnce) (init w) as s) : s.Inv :=
  Lts.Run.invariant (inv_init w) (fun _ _ _ hs hstep => hstep.2.inv hs hstep.1) h

/-- A send loop can send all that waits in the channel. -/
theorem drains {k : Nat} (hk : s.session = some k) (hloop : 0 < s.sendLoops) :
    ∃ u, Lts.Run Step s (List.replicate s.chan.length .send) u ∧
      (∀ m ∈ s.chan, (k, m) ∈ u.sent) ∧ ∀ p ∈ s.sent, p ∈ u.sent := by
  induction hchan : s.chan generalizing s with
  | nil => exact ⟨s, .nil, nofun, fun _ h => h⟩
  | cons m rest ih =>
      obtain ⟨u, hrun, hrest, hsent⟩ :=
        ih (s := { s with chan := rest, sent := (k, m) :: s.sent }) hk hloop rfl
      refine ⟨u, (Lts.Run.single (.send hchan hk hloop)).append hrun, fun x hx => ?_,
        fun p hp => hsent p (List.mem_cons_of_mem _ hp)⟩
      rcases List.mem_cons.mp hx with rfl | hx
      · exact hsent _ List.mem_cons_self
      · exact hrest x hx

theorem State.Serves.callSent (h : s.Serves) (hopen : s.closed = false) : s.CallSent := by
  obtain ⟨k, hk, -⟩ := h.recvLoop
  let s' : State := { s with seqId := s.seqId + 1 }
  have hcall : s.call = s'.push (.request s.seqId) := by simp [State.call, hk, hopen, s']
  obtain ⟨u, hrun, hsent, -⟩ := drains (s := s.call) (k := k) (by rwa [hcall])
    (by rw [hcall]; exact h.sendLoop ▸ Nat.one_pos)
  refine ⟨s.call, u, k, .call, by rw [hcall]; rfl, hk, hrun, hsent _ ?_⟩
  rw [hcall, chan_push (s := s') h.accepts]
  exact List.mem_append_right _ List.mem_cons_self

/-! ## any connects -/

/-- What holds of every client: how many send loops there are. -/
structure State.Counts (s : State) : Prop where
  fresh : s.session = none → s.Fresh
  /-- The loops of a connection end only with the channel. -/
  started : s.worker = .scheduler → s.session ≠ none → s.chanOpen = true → 0 < s.sendLoops
  stray : s.worker = .stray → s.sendLoops = 0

theorem counts_init (worker : Worker) : (init worker).Counts :=
  ⟨(inv_init worker).fresh, fun _ hsession => absurd rfl hsession, fun _ => rfl⟩

theorem Step.counts (h : Step s a t) (hs : s.Counts) : t.Counts := by
  have hworker := h.worker
  by_cases hconnect : a = .connect true
  · subst hconnect
    cases h
    refine ⟨nofun, fun hscheduler _ _ => ?_, fun hstray => ?_⟩
    · change 0 < s.sendLoops + s.worker.started
      rw [show s.worker = .scheduler from hscheduler]
      exact Nat.succ_pos _
    · change s.sendLoops + s.worker.started = 0
      rw [hs.stray hstray, show s.worker = .stray from hstray]
      rfl
  · have hkeeps := h.keeps hconnect
    refine ⟨fun hnone => ?_, fun hscheduler hsession hopen => ?_, fun hstray => ?_⟩
    · rw [hkeeps.session] at hnone
      refine hkeeps.fresh (hs.fresh hnone) ?_
      rcases h.carries.calls with hseq | ⟨hsome, -⟩
      · exact hseq
      · exact absurd hnone hsome
    · have hopen' : s.chanOpen = true := by
        rcases hkeeps.closing with ⟨-, heq⟩ | ⟨-, -, hclosed⟩
        · exact heq.symm.trans hopen
        · rw [hopen] at hclosed
          cases hclosed
      rw [hkeeps.sendLoops hopen']
      exact hs.started (hworker ▸ hscheduler) (hkeeps.session ▸ hsession) hopen'
    · have hzero := hs.stray (hworker ▸ hstray)
      exact Nat.le_zero.mp (hzero ▸ h.sendLoops_le hconnect)

theorem counts_of_run {w : Worker} {as : List Action} (h : Lts.Run Step (init w) as s) :
    s.Counts :=
  h.invariant (counts_init w) fun _ _ _ hs hstep => hstep.counts hs

/-- **One connection**: in every run in which `connect` succeeds at most once,
and on a client whose `m_worker` holds a scheduler, an open client serves its
session, delivers what was called and sends what is called next; and any other
successful `connect`, in any run, leaves an open client that does not serve its
session. -/
theorem serves_of_connectsOnce (w : Worker) (as : List Action) (s : State) :
    (Lts.Run (Lts.Restrict Step ConnectsOnce) (init w) as s → s.closed = false →
      s.Serves ∧ s.Delivers ∧ s.CallSent) ∧
    (Lts.Run Step (init w) as s → ∀ t, Step s (.connect true) t →
      t.closed = false ∧ (t.Serves ↔ s.session = none ∧ s.worker = .scheduler)) := by
  constructor
  · intro hrun hopen
    have hinv := inv_of_run hrun
    exact ⟨hinv.serves hopen, hinv.delivers, (hinv.serves hopen).callSent hopen⟩
  · intro hrun t hstep
    have hcounts := counts_of_run hrun
    cases hstep
    refine ⟨rfl, fun hserves => ?_, fun ⟨hsession, hworker⟩ =>
      ((hcounts.fresh hsession).connected hworker).serves rfl⟩
    have hone : s.sendLoops + s.worker.started = 1 := hserves.sendLoop
    have hworker : s.worker = .scheduler := by
      cases hw : s.worker with
      | scheduler => rfl
      | stray =>
          rw [hcounts.stray hw, hw] at hone
          cases hone
    have hstarted : s.worker.started = 1 := by rw [hworker]; rfl
    cases hsession : s.session with
    | none => exact ⟨rfl, hworker⟩
    | some k =>
        -- there was a send loop already
        have hpos := hcounts.started hworker (by simp [hsession]) hserves.accepts
        omega

/-- One `connect` on a new client, and then another. -/
theorem serves_of_connectsOnce_connected :
    ((init .scheduler).connected.Serves ∧ (init .scheduler).connected.Delivers ∧
      (init .scheduler).connected.CallSent) ∧
      (init .scheduler).connected.connected.closed = false ∧
      ¬ (init .scheduler).connected.connected.Serves := by
  have hstep : Lts.Restrict Step ConnectsOnce (init .scheduler) (.connect true)
      (init .scheduler).connected := ⟨fun _ => ⟨rfl, rfl⟩, .connect⟩
  have hrun := Lts.Run.single hstep
  obtain ⟨hopen, hserves⟩ :=
    (serves_of_connectsOnce _ _ _).2 (hrun.mono fun _ _ _ h => h.2) _ .connect
  exact ⟨(serves_of_connectsOnce _ _ _).1 hrun rfl, hopen, fun h => nomatch (hserves.mp h).1⟩

/-- A client that connects again after `close`: it is open, its channel is
not, and the request of its call is nowhere.  And a client whose `m_worker`
holds no scheduler: after its first `connect` it is open, without a loop. -/
theorem not_serves_reconnected :
    (∃ s, Lts.Run Step (init .scheduler) [.connect true, .close, .connect true, .call] s ∧
      s.closed = false ∧ ¬ s.Serves ∧ ¬ s.Delivers) ∧
    ∃ s, Lts.Run Step (init .stray) [.connect true] s ∧ s.closed = false ∧ ¬ s.Serves := by
  constructor
  · have hrun : Lts.Run Step (init .scheduler) [.connect true, .close, .connect true, .call]
        (init .scheduler).connected.close.connected.call :=
      (((Lts.Run.single .connect).snoc .close).snoc .connect).snoc .call
    refine ⟨_, hrun, rfl, fun h => absurd h.accepts (by decide), fun h => ?_⟩
    rcases h 0 (by decide) with hchan | ⟨k, -, hsent⟩
    · exact absurd hchan (by decide)
    · cases hsent
  · exact ⟨_, .single .connect, rfl, fun h => absurd h.sendLoop (by decide)⟩

end RpcClient
end XzmjxRpc
