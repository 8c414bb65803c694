import Mathlib.Data.Multiset.Filter
import XzmjxRpc.Rpc.Server.Clients.Close

/-!
# XzmjxRpc.Rpc.Server.Clients.Invariant

What holds of each client of a server in every run.

* `timers_of_run` — the timers of a client;
* `answers_of_run` — what is sent to a client.

Both are read off `Client.Inv`, which each step of a client keeps.
-/

namespace XzmjxRpc
namespace Clients

variable [Machine] {services : Services}

/-! ## one client -/

/-- The message that the loop holds. -/
def At.pending : At → List Protocol
  | .received req | .stopped req => [req]
  | .entry | .test | .recv | .ended | .thrown => []

/-- `handleClient` is in its loop. -/
def At.running : At → Bool
  | .test | .recv | .received _ | .stopped _ => true
  | .entry | .ended | .thrown => false

/-- What a coroutine may still send. -/
def Job.rsp (services : Services) : Job → Option Protocol
  | .handle req => answer services req
  | .send rsp => some rsp

/-- What may still be sent to a client for what was received from it. -/
def Client.owed (services : Services) (c : Client) : Multiset Protocol :=
  (c.jobs.filterMap (Job.rsp services) : Multiset Protocol) +
    (c.loop.pending.filterMap (answer services) : Multiset Protocol)

/-- What holds of a client between steps. -/
structure Client.Inv (services : Services) (c : Client) : Prop where
  /-- No timer is set but the last one. -/
  live : ∀ t ∈ c.live, c.timeId = some t ∧ t + 1 = c.timers
  last : ∀ t, c.timeId = some t → t + 1 = c.timers
  entry : c.loop = .entry → c.live = ∅
  stopped : ∀ req, c.loop = .stopped req → c.live = ∅
  ended : c.loop = .ended → c.socket.isConnect = true → c.live = ∅
  /-- The session has closed the socket, or is about to. -/
  released : c.session = false → c.loop = .entry ∨ (c.loop = .ended ∨ c.loop = .thrown) ∧
    (c.socket.isConnect = false ∨ c.socket.closing ≠ [])
  down : c.socket.Down
  answers : (c.sent : Multiset Protocol) + c.owed services ≤
    (c.received.filterMap (answer services) : Multiset Protocol)

/-! ### what is owed -/

omit [Machine] in
theorem filterMap_cons_coe {α β : Type} (f : α → Option β) (x : α) (l : List α) :
    ((x :: l).filterMap f : Multiset β) =
      (l.filterMap f : Multiset β) + ((f x).toList : Multiset β) := by
  rw [add_comm, Multiset.coe_add, List.filterMap_cons]
  cases f x <;> rfl

omit [Machine] in
/-- A list is one of its elements and the rest. -/
theorem filterMap_eraseIdx {α β : Type} (f : α → Option β) {l : List α} {k : Nat} {x : α}
    (h : l[k]? = some x) :
    (l.filterMap f : Multiset β) =
      ((l.eraseIdx k).filterMap f : Multiset β) + ((f x).toList : Multiset β) := by
  obtain ⟨hk, rfl⟩ := List.getElem?_eq_some_iff.mp h
  rw [← filterMap_cons_coe]
  exact Multiset.coe_eq_coe.mpr ((List.getElem_cons_eraseIdx_perm hk).filterMap f).symm

omit [Machine] in
/-- And with another element in its place. -/
theorem filterMap_set {α β : Type} (f : α → Option β) {l : List α} {k : Nat} {x : α}
    (h : l[k]? = some x) (y : α) :
    ((l.set k y).filterMap f : Multiset β) =
      ((l.eraseIdx k).filterMap f : Multiset β) + ((f y).toList : Multiset β) := by
  obtain ⟨hk, -⟩ := List.getElem?_eq_some_iff.mp h
  rw [← filterMap_cons_coe]
  exact Multiset.coe_eq_coe.mpr ((List.set_perm_cons_eraseIdx hk y).filterMap f)

namespace Client.Inv

variable {c : Client}

/-- A statement of `close()`, or a call of it. -/
theorem setSocket (h : c.Inv services) {sock : Socket} (hdown : sock.Down)
    (hconn : c.socket.isConnect = false → sock.isConnect = false)
    (hclosed : sock.isConnect = false ∨ sock.closing ≠ []) :
    ({ c with socket := sock } : Client).Inv services where
  live := h.live
  last := h.last
  entry := h.entry
  stopped := h.stopped
  ended := fun hl hc => by
    refine h.ended hl ?_
    by_contra hcon
    have hc : sock.isConnect = true := hc
    rw [hconn (Bool.eq_false_of_not_eq_true hcon)] at hc
    cases hc
  released := fun hs => (h.released hs).imp id fun hr => ⟨hr.1, hclosed⟩
  down := hdown
  answers := h.answers

theorem close (h : c.Inv services) : ({ c with socket := c.socket.close } : Client).Inv services :=
  h.setSocket h.down.close id (.inr (List.append_ne_nil_of_right_ne_nil _ nofun))

/-- A timer is gone. -/
theorem erase (h : c.Inv services) (t : Nat) :
    ({ c with live := c.live.erase t } : Client).Inv services where
  live := fun u hu => h.live u (Finset.mem_of_mem_erase hu)
  last := h.last
  entry := fun hl => by
    show c.live.erase t = ∅
    rw [h.entry hl, Finset.erase_empty]
  stopped := fun req hl => by
    show c.live.erase t = ∅
    rw [h.stopped req hl, Finset.erase_empty]
  ended := fun hl hc => by
    show c.live.erase t = ∅
    rw [h.ended hl hc, Finset.erase_empty]
  released := h.released
  down := h.down
  answers := h.answers

theorem live_stopTimer (h : c.Inv services) : c.stopTimer.live = ∅ := by
  unfold Client.stopTimer
  split
  · next hid =>
      refine Finset.eq_empty_of_forall_notMem fun t ht => ?_
      have := (h.live t ht).1
      rw [hid] at this
      cases this
  · next t hid =>
      refine Finset.eq_empty_of_forall_notMem fun u hu => ?_
      obtain ⟨hne, hu⟩ := Finset.mem_erase.mp hu
      have := (h.live u hu).1
      rw [hid, Option.some.injEq] at this
      exact hne this.symm

/-- The session lives as long as the loop. -/
theorem session_ne (h : c.Inv services) (hrun : c.loop.running = true) : c.session ≠ false := by
  intro hs
  rcases h.released hs with he | ⟨he | he, -⟩
  all_goals
    rw [he] at hrun
    cases hrun

/-- A timer is set where none was, and the loop goes on. -/
theorem setTimer (h : c.Inv services) (hlive : c.live = ∅) {ses : Bool} (hses : ses ≠ false)
    {jobs : List Job}
    (hjobs : (jobs.filterMap (Job.rsp services) : Multiset Protocol) ≤ c.owed services) :
    ({ c.setTimer with session := ses, jobs := jobs, loop := .test } : Client).Inv services where
  live := fun t ht => by
    have ht : t ∈ insert c.timers c.live := ht
    rw [hlive] at ht
    cases Finset.mem_singleton.mp ht
    exact ⟨rfl, rfl⟩
  last := fun t ht => by
    cases ht
    rfl
  entry := fun hl => by cases hl
  stopped := fun req hl => by cases hl
  ended := fun hl => by cases hl
  released := fun hs => absurd hs hses
  down := h.down
  answers := by
    have howed : ({ c.setTimer with session := ses, jobs := jobs, loop := .test } : Client).owed
        services = (jobs.filterMap (Job.rsp services) : Multiset Protocol) := add_zero _
    rw [howed]
    exact (add_le_add_right hjobs _).trans h.answers

/-- `time_id` is stopped, at the end of the loop or before the next timer. -/
theorem stopTimer (h : c.Inv services) {l : At} (hl : l ≠ .entry) (hs : c.session ≠ false)
    (hp : l.pending = c.loop.pending) :
    ({ c.stopTimer with loop := l } : Client).Inv services := by
  have hlive := h.live_stopTimer
  have hrest : c.stopTimer = { c with live := c.stopTimer.live } := by
    unfold Client.stopTimer
    split <;> rfl
  rw [hlive] at hrest
  rw [hrest]
  refine ⟨fun t ht => absurd ht (Finset.notMem_empty t), h.last,
    fun hl' => absurd hl' hl, fun _ _ => rfl, fun _ _ => rfl, fun hs' => ?_, h.down, ?_⟩
  · exact absurd hs' hs
  · have hans := h.answers
    unfold Client.owed at hans ⊢
    rwa [← hp] at hans

/-- A message is received. -/
theorem receive (h : c.Inv services) (hl : c.loop = .recv) (req : Protocol) :
    ({ c with loop := .received req, received := c.received ++ [req] } : Client).Inv services where
  live := h.live
  last := h.last
  entry := fun hl' => by cases hl'
  stopped := fun _ hl' => by cases hl'
  ended := fun hl' => by cases hl'
  released := fun hs => absurd hs (h.session_ne (by rw [hl]; rfl))
  down := h.down
  answers := by
    have hans := h.answers
    unfold Client.owed at hans ⊢
    rw [hl, At.pending, List.filterMap_nil, Multiset.coe_nil, add_zero] at hans
    rw [List.filterMap_append, ← Multiset.coe_add, ← add_assoc]
    exact add_le_add_left hans _

/-- A coroutine ends with `jobs` in place of it; what it might have sent is sent now,
or not at all. -/
theorem finish (h : c.Inv services) {jobs : List Job} {sent : List Protocol}
    (hle : (sent : Multiset Protocol) + (jobs.filterMap (Job.rsp services) : Multiset Protocol) ≤
      (c.sent : Multiset Protocol) + (c.jobs.filterMap (Job.rsp services) : Multiset Protocol)) :
    ({ c with jobs := jobs, sent := sent } : Client).Inv services where
  live := h.live
  last := h.last
  entry := h.entry
  stopped := h.stopped
  ended := h.ended
  released := h.released
  down := h.down
  answers := by
    have hans := h.answers
    unfold Client.owed at hans ⊢
    rw [← add_assoc] at hans ⊢
    exact (add_le_add_left hle _).trans hans

/-- The test of the loop. -/
theorem tested (h : c.Inv services) (hl : c.loop = .test) :
    ({ c with loop := if c.socket.isConnect then .recv else .ended } : Client).Inv services where
  live := h.live
  last := h.last
  entry := fun hl' => by
    have hl' : (if c.socket.isConnect then At.recv else .ended) = .entry := hl'
    split at hl' <;> cases hl'
  stopped := fun req hl' => by
    have hl' : (if c.socket.isConnect then At.recv else .ended) = .stopped req := hl'
    split at hl' <;> cases hl'
  ended := fun hl' hc => by
    have hl' : (if c.socket.isConnect then At.recv else .ended) = .ended := hl'
    have hc : c.socket.isConnect = true := hc
    rw [hc] at hl'
    cases hl'
  released := fun hs => absurd hs (h.session_ne (by rw [hl]; rfl))
  down := h.down
  answers := by
    have hans := h.answers
    unfold Client.owed at hans ⊢
    rw [hl] at hans
    split <;> exact hans

/-- `recvProtocol` throws. -/
theorem throw (h : c.Inv services) (hl : c.loop = .recv) :
    ({ c with loop := .thrown } : Client).Inv services where
  live := h.live
  last := h.last
  entry := nofun
  stopped := nofun
  ended := nofun
  released := fun hs => absurd hs (h.session_ne (by rw [hl]; rfl))
  down := h.down
  answers := by
    have hans := h.answers
    unfold Client.owed at hans ⊢
    rwa [hl] at hans

/-- The session ends after the loop and the coroutines. -/
theorem endSession (h : c.Inv services) (hl : c.loop = .ended ∨ c.loop = .thrown) :
    c.endSession.Inv services := by
  unfold Client.endSession
  split
  · exact { h.close with
      released := fun _ => .inr ⟨hl, .inr (List.append_ne_nil_of_right_ne_nil _ nofun)⟩ }
  · next hc =>
      exact { h with released := fun _ => .inr ⟨hl, .inl (Bool.eq_false_of_not_eq_true hc)⟩ }

end Client.Inv

/-- **One step** of a client keeps it. -/
theorem Client.Inv.next {c c' : Client} {a : Act} {closed : List Nat} (h : c.Inv services)
    (hn : c.next services a = some (c', closed)) : c'.Inv services := by
  cases a with
  | start =>
      simp only [Client.next] at hn
      split at hn <;> cases hn
      next hl =>
      have hjobs : (c.jobs.filterMap (Job.rsp services) : Multiset Protocol) ≤ c.owed services :=
        Multiset.le_add_right _ _
      exact h.setTimer (h.entry hl) Bool.noConfusion hjobs
  | test =>
      simp only [Client.next] at hn
      split at hn <;> cases hn
      next hl => exact h.tested hl
  | recv msg =>
      simp only [Client.next] at hn
      split at hn
      · next hl =>
          have hs := h.session_ne (by rw [hl]; rfl)
          cases msg with
          | none =>
              cases hn
              exact h.stopTimer (by decide) hs (by rw [hl]; rfl)
          | some req =>
              cases hn
              exact h.receive hl req
      · cases hn
  | stopTimer =>
      simp only [Client.next] at hn
      split at hn
      · next req hl =>
          cases hn
          have hs := h.session_ne (by rw [hl]; rfl)
          exact h.stopTimer nofun hs (by rw [hl]; rfl)
      · cases hn
  | handOver =>
      simp only [Client.next] at hn
      split at hn
      · next req hl =>
          cases hn
          have hs := h.session_ne (by rw [hl]; rfl)
          have hjobs : ((c.jobs ++ [Job.handle req]).filterMap (Job.rsp services) :
              Multiset Protocol) ≤ c.owed services := by
            rw [Client.owed, hl, List.filterMap_append, ← Multiset.coe_add]
            exact le_rfl
          exact h.setTimer (h.stopped req hl) hs hjobs
      · cases hn
  | recvThrow =>
      simp only [Client.next] at hn
      split at hn <;> cases hn
      next hl => exact h.throw hl
  | expire t =>
      simp only [Client.next] at hn
      split at hn <;> cases hn
      exact (h.erase t).close
  | closing k =>
      obtain ⟨stmt, hk, hn⟩ := Option.bind_eq_some_iff.mp hn
      cases hn
      exact h.setSocket (h.down.closeStmt hk) Socket.closeStmt_isConnect (h.down.closed hk)
  | handle k =>
      simp only [Client.next] at hn
      split at hn
      · next req hk =>
          have hjobs := filterMap_eraseIdx (Job.rsp services) hk
          split at hn
          · cases hn
            exact h.finish (add_le_add_right (hjobs ▸ Multiset.le_add_right _ _) _)
          · next rsp hrsp =>
              split at hn <;> cases hn
              · have hset := filterMap_set (Job.rsp services) hk (.send rsp)
                have hsame : Job.rsp services (.handle req) = Job.rsp services (.send rsp) := hrsp
                rw [hsame, ← hset] at hjobs
                exact h.finish (add_le_add_right hjobs.ge _)
              · exact h.finish (add_le_add_right (hjobs ▸ Multiset.le_add_right _ _) _)
      · cases hn
  | send k ok =>
      simp only [Client.next] at hn
      split at hn
      · next rsp hk =>
          have hjobs := filterMap_eraseIdx (Job.rsp services) hk
          cases hn
          refine h.finish ?_
          rw [hjobs]
          split
          · rw [← Multiset.coe_add, add_assoc,
              add_comm (_ : Multiset Protocol) (Multiset.ofList _)]
            exact le_rfl
          · exact add_le_add_right (Multiset.le_add_right _ _) _
      · cases hn
  | release =>
      simp only [Client.next] at hn
      split at hn
      · next hend =>
          cases hn
          exact h.endSession hend.1
      · cases hn

/-! ## every run -/

/-- What a step of client `i` is. -/
theorem Step.client_inv {s t : State} {i : Nat} {a : Act}
    (hs : Step services s (.client i a) t) :
    ∃ c c' closed, s.clients[i]? = some c ∧ c.next services a = some (c', closed) ∧
      t = { s with clients := s.clients.set i c', openFds := s.openFds \ closed.toFinset } := by
  obtain ⟨c, hc, hs⟩ := Option.bind_eq_some_iff.mp hs
  obtain ⟨⟨c', closed⟩, hn, hs⟩ := Option.bind_eq_some_iff.mp hs
  exact ⟨c, c', closed, hc, hn, (Option.some.inj hs).symm⟩

/-- A client that has just been accepted. -/
theorem Client.Inv.accepted (fd : Nat) :
    Client.Inv services { socket := { sockFd := some fd } } where
  live := nofun
  last := nofun
  entry := fun _ => rfl
  stopped := nofun
  ended := nofun
  released := fun _ => .inl rfl
  down := nofun
  answers := le_rfl

theorem Step.clients {s t : State} {a : Action} (h : ∀ c ∈ s.clients, c.Inv services)
    (hs : Step services s a t) : ∀ c ∈ t.clients, c.Inv services := by
  intro d hd
  cases a with
  | accept fd =>
      simp only [Step, State.next] at hs
      split at hs <;> cases hs
      rcases List.mem_append.mp hd with hd | hd
      · exact h d hd
      · cases List.mem_singleton.mp hd
        exact .accepted fd
  | refuse fd =>
      simp only [Step, State.next] at hs
      split at hs <;> cases hs
      exact h d hd
  | client i a =>
      obtain ⟨c, c', closed, hc, hn, rfl⟩ := hs.client_inv
      rcases List.mem_or_eq_of_mem_set hd with hd | rfl
      · exact h d hd
      · exact (h c (List.mem_of_getElem? hc)).next hn

theorem clients_of_run {base : Finset Nat} {as : List Action} {s : State}
    (h : Lts.Run (Step services) (.init base) as s) : ∀ c ∈ s.clients, c.Inv services :=
  h.invariant (I := fun s => ∀ c ∈ s.clients, c.Inv services) nofun
    fun _ _ _ hi hs => hs.clients hi

/-- **Timers**: a client has at most one that is set, the one set last, so none
that was set before its last message can close it; and when `handleClient` has
returned, not left by an exception, one is left only for a socket that is not
connected any more. -/
theorem timers_of_run {base : Finset Nat} {as : List Action} {s : State}
    (h : Lts.Run (Step services) (.init base) as s) {c : Client} (hc : c ∈ s.clients) :
    c.live.card ≤ 1 ∧ (∀ t ∈ c.live, c.timeId = some t ∧ t + 1 = c.timers) ∧
      (c.loop = .ended → c.live.Nonempty → c.socket.isConnect = false) := by
  have hi := clients_of_run h c hc
  refine ⟨Finset.card_le_one.mpr fun t ht u hu => ?_, hi.live, fun hl hne => ?_⟩
  · have ht' := (hi.live t ht).2
    have hu' := (hi.live u hu).2
    omega
  · by_contra hcon
    rw [hi.ended hl (Bool.eq_true_of_not_eq_false hcon)] at hne
    exact Finset.not_nonempty_empty hne

/-- A client sends a heartbeat and is answered. -/
def served : List Action :=
  [.accept 4, .client 0 .start, .client 0 .test, .client 0 (.recv (some .heartbeat)),
    .client 0 .stopTimer, .client 0 .handOver, .client 0 (.handle 0), .client 0 (.send 0 true)]

/-- The client as it is then: the timer of its message is set. -/
def servedClient : Client :=
  { socket := { sockFd := some 4 }, loop := .test, session := true, timeId := some 1, timers := 2,
    live := {1}, received := [.heartbeat], sent := [.heartbeat] }

omit [Machine] in
theorem run_served : letI := x86_64
    Lts.Run (Step fun _ => none) (.init {3}) served
      { clients := [servedClient], openFds := {4, 3} } :=
  let _ := x86_64
  Lts.Run.of_foldlM (State.next fun _ => none) (fun _ _ _ h => h) rfl

omit [Machine] in
theorem timers_of_run_served : letI := x86_64
    servedClient.live = {1} ∧ servedClient.live.card ≤ 1 :=
  let _ := x86_64
  ⟨rfl, (timers_of_run run_served (List.mem_singleton_self servedClient)).1⟩

end Clients
end XzmjxRpc
