import XzmjxRpc.Rpc.Calls

/-!
# XzmjxRpc.Rpc.Calls.Invariant

The invariant of concurrent calls, in three layers: `Registry` ties the id
counter, the map and the calls together, `Requests` says that every request
is somewhere between its caller and its one answer, and `Responses` follows
the answers to the channel of their own call.
-/

namespace XzmjxRpc
namespace Calls

open Function

/-! ## ids and the map -/

/-- Ids are call numbers, and the map holds exactly the ids of the
outstanding calls, each mapped to its own call. -/
structure Registry (s : State) : Prop where
  seqId : s.seqId = BitVec.ofNat 64 s.begun
  known : ∀ c k, s.calls c = some k → c < s.begun
  ids : ∀ c k, s.calls c = some k → k.id = BitVec.ofNat 64 c ∧ k.req.seq = k.id
  listed : ∀ c k, s.calls c = some k → k.phase.Outstanding → s.outstanding k.id = some c
  owner : ∀ i c, s.outstanding i = some c →
    ∃ k, s.calls c = some k ∧ k.id = i ∧ k.phase.Outstanding

theorem ofNat_inj {m n : Nat} (hm : m < 2 ^ 64) (hn : n < 2 ^ 64)
    (h : BitVec.ofNat 64 m = BitVec.ofNat 64 n) : m = n := by
  have hnat := congrArg BitVec.toNat h
  rwa [BitVec.toNat_ofNat, BitVec.toNat_ofNat, Nat.mod_eq_of_lt hm, Nat.mod_eq_of_lt hn] at hnat

theorem calls_setCall (s : State) (c : Nat) (k : Call) (c' : Nat) :
    (s.setCall c k).calls c' = if c' = c then some k else s.calls c' := by
  simp only [State.setCall, update_apply]

/-- A call after call `c` has become `k`. -/
theorem setCall_cases {s t : State} {c c' : Nat} {k k' : Call}
    (hcalls : t.calls = (s.setCall c k).calls) (h : t.calls c' = some k') :
    c' = c ∧ k' = k ∨ c' ≠ c ∧ s.calls c' = some k' := by
  rw [hcalls, calls_setCall] at h
  by_cases hc : c' = c
  · rw [if_pos hc] at h
    exact .inl ⟨hc, (Option.some.inj h).symm⟩
  · rw [if_neg hc] at h
    exact .inr ⟨hc, h⟩

theorem calls_register (s : State) (payload : Bytes) (c : Nat) :
    (s.register payload).calls c = if c = s.begun then some (s.newCall payload) else s.calls c := by
  simp only [State.register, update_apply]

theorem outstanding_register {s : State} (h : s.outstanding s.seqId = none) (payload : Bytes)
    (i : BitVec 64) :
    (s.register payload).outstanding i = if i = s.seqId then some s.begun else s.outstanding i := by
  simp only [State.register, if_pos h, update_apply]

/-- A step that moves call `c` on without taking it off the map. -/
theorem Registry.setCall {s t : State} (h : Registry s) {c : Nat} {k k' : Call}
    (hcalls : t.calls = (s.setCall c k').calls) (hbegun : t.begun = s.begun)
    (hseq : t.seqId = s.seqId) (houtstanding : t.outstanding = s.outstanding)
    (hk : s.calls c = some k) (hid : k'.id = k.id) (hreq : k'.req = k.req)
    (hout : k'.phase.Outstanding ↔ k.phase.Outstanding) : Registry t := by
  have hold := h.ids c k hk
  constructor
  · rw [hseq, hbegun, h.seqId]
  · intro c' k'' hk''
    rw [hbegun]
    rcases setCall_cases hcalls hk'' with ⟨rfl, -⟩ | ⟨-, hk''⟩
    · exact h.known _ k hk
    · exact h.known c' k'' hk''
  · intro c' k'' hk''
    rcases setCall_cases hcalls hk'' with ⟨rfl, rfl⟩ | ⟨-, hk''⟩
    · rw [hid, hreq]
      exact hold
    · exact h.ids c' k'' hk''
  · intro c' k'' hk'' hp
    rw [houtstanding]
    rcases setCall_cases hcalls hk'' with ⟨rfl, rfl⟩ | ⟨-, hk''⟩
    · rw [hid]
      exact h.listed _ k hk (hout.mp hp)
    · exact h.listed c' k'' hk'' hp
  · intro i c' hi
    rw [houtstanding] at hi
    obtain ⟨k₀, hk₀, hi₀, hp₀⟩ := h.owner i c' hi
    simp only [hcalls, calls_setCall]
    by_cases hc : c' = c
    · subst hc
      rw [hk] at hk₀
      cases hk₀
      exact ⟨k', if_pos rfl, hid.trans hi₀, hout.mpr hp₀⟩
    · exact ⟨k₀, (if_neg hc).trans hk₀, hi₀, hp₀⟩

/-- Steps that leave the client's calls alone. -/
theorem Registry.congr {s t : State} (h : Registry s) (hcalls : t.calls = s.calls)
    (hbegun : t.begun = s.begun) (hseq : t.seqId = s.seqId)
    (houtstanding : t.outstanding = s.outstanding) : Registry t := by
  obtain ⟨h1, h2, h3, h4, h5⟩ := h
  constructor
  · rwa [hseq, hbegun]
  · rwa [hcalls, hbegun]
  · rwa [hcalls]
  · rwa [hcalls, houtstanding]
  · rwa [hcalls, houtstanding]

/-- Taking an id: it is new, because every id in the map is the number of an
earlier call. -/
theorem Registry.register {s : State} (h : Registry s) (hb : s.begun + 1 < 2 ^ 64)
    (payload : Bytes) : Registry (s.register payload) := by
  have hnew : s.outstanding s.seqId = none := by
    by_contra hne
    obtain ⟨c, hc⟩ := Option.ne_none_iff_exists'.mp hne
    obtain ⟨k, hk, hi, -⟩ := h.owner _ c hc
    have hlt := h.known c k hk
    rw [(h.ids c k hk).1, h.seqId] at hi
    have heq := ofNat_inj (by omega) (by omega) hi
    omega
  constructor
  · simp only [State.register, h.seqId]
    exact (BitVec.ofNat_add s.begun 1).symm
  · intro c k hk
    rw [calls_register] at hk
    show c < s.begun + 1
    split at hk
    · omega
    · exact Nat.lt_succ_of_lt (h.known c k hk)
  · intro c k hk
    rw [calls_register] at hk
    split at hk
    · next hc =>
        cases hk
        refine ⟨h.seqId.trans (by rw [hc]), ?_⟩
        rw [State.newCall, Protocol.createSuccess, Protocol.create_eq]
    · exact h.ids c k hk
  · intro c k hk hp
    rw [calls_register] at hk
    rw [outstanding_register hnew]
    split at hk
    · next hc =>
        cases hk
        exact (if_pos rfl).trans (by rw [hc])
    · have hlisted := h.listed c k hk hp
      rw [if_neg]
      · exact hlisted
      · intro hid
        rw [hid, hnew] at hlisted
        cases hlisted
  · intro i c hi
    rw [outstanding_register hnew] at hi
    simp only [calls_register]
    split at hi
    · next hid =>
        cases hi
        exact ⟨s.newCall payload, if_pos rfl, hid.symm, trivial⟩
    · obtain ⟨k, hk, hid, hp⟩ := h.owner i c hi
      have hlt := h.known c k hk
      exact ⟨k, (if_neg (by omega)).trans hk, hid, hp⟩

/-- Erasing the id of a call that is past its wait: no other call has it. -/
theorem Registry.erase {s : State} (h : Registry s) {c : Nat} {k : Call} {out : Outcome}
    (hk : s.calls c = some k) (hp : k.phase = .woken out) :
    Registry { s.setCall c { k with phase := .ended out } with
      outstanding := update s.outstanding k.id none } := by
  have hmine := h.listed c k hk (by rw [hp]; trivial)
  constructor
  · exact h.seqId
  · intro c' k' hk'
    rcases setCall_cases rfl hk' with ⟨rfl, -⟩ | ⟨-, hk'⟩
    · exact h.known _ k hk
    · exact h.known c' k' hk'
  · intro c' k' hk'
    rcases setCall_cases rfl hk' with ⟨rfl, rfl⟩ | ⟨-, hk'⟩
    · exact h.ids _ k hk
    · exact h.ids c' k' hk'
  · intro c' k' hk' hp'
    rcases setCall_cases rfl hk' with ⟨rfl, rfl⟩ | ⟨hc, hk'⟩
    · exact absurd hp' id
    · have hlisted := h.listed c' k' hk' hp'
      simp only
      rw [update_of_ne]
      · exact hlisted
      · intro hid
        rw [hid, hmine] at hlisted
        exact hc (Option.some.inj hlisted).symm
  · intro i c' hi
    simp only [update_apply] at hi
    split at hi
    · cases hi
    · next hid =>
        obtain ⟨k₀, hk₀, hi₀, hp₀⟩ := h.owner i c' hi
        have hc : c' ≠ c := by
          rintro rfl
          rw [hk] at hk₀
          cases hk₀
          exact hid hi₀.symm
        exact ⟨k₀, by rw [calls_setCall, if_neg hc, hk₀], hi₀, hp₀⟩

/-- Moving one call on keeps the others. -/
theorem calls_of_setCall {s t : State} {c : Nat} {k k' : Call}
    (hcalls : t.calls = (s.setCall c k').calls) (hk : s.calls c = some k) (hreq : k'.req = k.req)
    (hphase : k'.phase = .registered → k.phase = .registered) :
    ∀ c₀ k₀, s.calls c₀ = some k₀ → ∃ k₁, t.calls c₀ = some k₁ ∧ k₁.req = k₀.req ∧
      (k₁.phase = .registered → k₀.phase = .registered) := by
  intro c₀ k₀ hk₀
  simp only [hcalls, calls_setCall]
  by_cases hc : c₀ = c
  · subst hc
    rw [hk] at hk₀
    cases hk₀
    exact ⟨k', if_pos rfl, hreq, hphase⟩
  · exact ⟨k₀, (if_neg hc).trans hk₀, rfl, id⟩

/-- What receiving a response does: nothing, or one push into the channel
that the id is mapped to. -/
theorem handleRecv_cases (s : State) (r : Tagged) :
    s.handleRecv r = s ∨
    ∃ c k, s.outstanding r.msg.seq = some c ∧ s.calls c = some k ∧
      s.handleRecv r =
        { s.setCall c { k with recvChan := k.recvChan ++ [r] } with
          deliveries := (c, r) :: s.deliveries } := by
  unfold State.handleRecv State.handleMethodResponse State.push
  split
  · cases hout : s.outstanding r.msg.seq with
    | none => exact .inl rfl
    | some c =>
        cases hk : s.calls c with
        | none => exact .inl (by simp only [hk])
        | some k => exact .inr ⟨c, k, rfl, hk, by simp only [hk]⟩
  · exact .inl rfl

/-- So what holds without the push and with it holds after a response. -/
theorem handleRecv_ind {P : State → Prop} (s : State) (r : Tagged) (hdrop : P s)
    (hpush : ∀ c k, s.outstanding r.msg.seq = some c → s.calls c = some k →
      P { s.setCall c { k with recvChan := k.recvChan ++ [r] } with
        deliveries := (c, r) :: s.deliveries }) : P (s.handleRecv r) := by
  rcases handleRecv_cases s r with heq | ⟨c, k, hc, hk, heq⟩
  · rw [heq]
    exact hdrop
  · rw [heq]
    exact hpush c k hc hk

section
variable [Machine]

theorem begun_le {s t : State} {a : Action} (h : Step s a t) : s.begun ≤ t.begun := by
  cases h with
  | begin payload => exact Nat.le_succ _
  | clientRecv hq =>
      rename_i r rest
      exact handleRecv_ind (P := fun t => s.begun ≤ t.begun) _ r (Nat.le_refl _)
        fun _ _ _ _ => Nat.le_refl _
  | _ => exact Nat.le_refl _

theorem Registry.step {s t : State} {a : Action} (h : Registry s) (hb : t.begun < 2 ^ 64)
    (hs : Step s a t) : Registry t := by
  cases hs with
  | begin payload => exact h.register hb payload
  | enqueue hk hp =>
      exact h.setCall rfl rfl rfl rfl hk rfl rfl (iff_of_true trivial (by rw [hp]; trivial))
  | send hq => exact h.congr rfl rfl rfl rfl
  | serverRecv hq => exact h.congr rfl rfl rfl rfl
  | serverFinish hm hrsp => exact h.congr rfl rfl rfl rfl
  | clientRecv hq =>
      rename_i r rest
      exact handleRecv_ind { s with toClient := rest } r (h.congr rfl rfl rfl rfl)
        fun c k _ hk => h.setCall rfl rfl rfl rfl hk rfl rfl Iff.rfl
  | pop hk hp hc =>
      exact h.setCall rfl rfl rfl rfl hk rfl rfl (iff_of_true trivial (by rw [hp]; trivial))
  | timeout hk hp =>
      exact h.setCall rfl rfl rfl rfl hk rfl rfl (iff_of_true trivial (by rw [hp]; trivial))
  | erase hk hp => exact h.erase hk hp

/-! ## from a request to its answer -/

/-- The calls whose requests are on their way, being handled or answered. -/
def State.issued (s : State) : List Nat :=
  (s.sendQueue ++ s.toServer ++ s.handling ++ s.answers).map Tagged.call

/-- Every request is its call's, exists once, and gives rise to at most one
answer, which the server made of it. -/
structure Requests (s : State) : Prop where
  pending : ∀ m ∈ s.sendQueue ++ s.toServer ++ s.handling,
    ∃ k, s.calls m.call = some k ∧ m.msg = k.req
  answered : ∀ r ∈ s.answers, ∃ k, s.calls r.call = some k ∧
    ∃ services, handleMethodCall services k.req = .ok r.msg
  unissued : ∀ c k, s.calls c = some k → k.phase = .registered → c ∉ s.issued
  once : s.issued.Nodup

/-- A request was issued by a call that exists. -/
theorem Requests.exists_call {s : State} (h : Requests s) {c : Nat} (hc : c ∈ s.issued) :
    ∃ k, s.calls c = some k := by
  obtain ⟨m, hm, rfl⟩ := List.mem_map.mp hc
  rcases List.mem_append.mp hm with hm | hm
  · obtain ⟨k, hk, -⟩ := h.pending m hm
    exact ⟨k, hk⟩
  · obtain ⟨k, hk, -⟩ := h.answered m hm
    exact ⟨k, hk⟩

/-- Steps that move requests along, and calls on that have issued theirs. -/
theorem Requests.congr {s t : State} (h : Requests s)
    (hcalls : ∀ c k, s.calls c = some k →
      ∃ k', t.calls c = some k' ∧ k'.req = k.req ∧
        (k'.phase = .registered → k.phase = .registered))
    (hpending : (t.sendQueue ++ t.toServer ++ t.handling).Perm
      (s.sendQueue ++ s.toServer ++ s.handling))
    (hanswers : t.answers = s.answers) : Requests t := by
  have hissued : t.issued.Perm s.issued := by
    unfold State.issued
    rw [hanswers]
    exact (hpending.append_right _).map _
  constructor
  · intro m hm
    obtain ⟨k, hk, hreq⟩ := h.pending m (hpending.mem_iff.mp hm)
    obtain ⟨k', hk', hreq', -⟩ := hcalls _ k hk
    exact ⟨k', hk', hreq.trans hreq'.symm⟩
  · intro r hr
    rw [hanswers] at hr
    obtain ⟨k, hk, services, hrsp⟩ := h.answered r hr
    obtain ⟨k', hk', hreq', -⟩ := hcalls _ k hk
    exact ⟨k', hk', services, by rw [hreq', hrsp]⟩
  · intro c k hk hp hc
    rw [hissued.mem_iff] at hc
    obtain ⟨k₀, hk₀⟩ := h.exists_call hc
    obtain ⟨k', hk', -, hp'⟩ := hcalls c k₀ hk₀
    rw [hk] at hk'
    cases hk'
    exact h.unissued c k₀ hk₀ (hp' hp) hc
  · exact hissued.nodup_iff.mpr h.once

theorem Requests.enqueue {s : State} (h : Requests s) {c : Nat} {k : Call}
    (hk : s.calls c = some k) (hp : k.phase = .registered) :
    Requests { s.setCall c { k with phase := .waiting } with
      sendQueue := s.sendQueue ++ [⟨c, k.req⟩] } := by
  have hcalls := calls_of_setCall (t := s.setCall c { k with phase := .waiting }) rfl hk rfl
    (fun h => nomatch h)
  have hissued : State.issued { s.setCall c { k with phase := .waiting } with
      sendQueue := s.sendQueue ++ [⟨c, k.req⟩] } |>.Perm (c :: s.issued) := by
    refine List.perm_iff_count.mpr fun i => ?_
    simp only [State.issued, State.setCall, List.map_append, List.map_cons, List.map_nil,
      List.count_append, List.count_cons, List.count_nil]
    omega
  have hfresh := h.unissued c k hk hp
  constructor
  · intro m hm
    have hcases : m ∈ s.sendQueue ++ s.toServer ++ s.handling ∨ m = ⟨c, k.req⟩ := by
      simp only [State.setCall, List.mem_append, List.mem_singleton] at hm ⊢
      grind
    rcases hcases with hm | rfl
    · obtain ⟨k₀, hk₀, hreq⟩ := h.pending m hm
      obtain ⟨k₁, hk₁, hreq₁, -⟩ := hcalls _ k₀ hk₀
      exact ⟨k₁, hk₁, hreq.trans hreq₁.symm⟩
    · exact ⟨_, (calls_setCall _ _ _ _).trans (if_pos rfl), rfl⟩
  · intro r hr
    obtain ⟨k₀, hk₀, services, hrsp⟩ := h.answered r hr
    obtain ⟨k₁, hk₁, hreq₁, -⟩ := hcalls _ k₀ hk₀
    exact ⟨k₁, hk₁, services, by rw [hreq₁, hrsp]⟩
  · intro c' k' hk' hp' hc'
    rw [hissued.mem_iff, List.mem_cons] at hc'
    rcases setCall_cases rfl hk' with ⟨-, rfl⟩ | ⟨hne, hk'⟩
    · cases hp'
    · rcases hc' with rfl | hc'
      · exact hne rfl
      · exact h.unissued c' k' hk' hp' hc'
  · rw [hissued.nodup_iff, List.nodup_cons]
    exact ⟨hfresh, h.once⟩

theorem Requests.serverFinish {s : State} (h : Requests s) {services : Services} {m : Tagged}
    {rsp : Protocol} (hm : m ∈ s.handling) (hrsp : handleMethodCall services m.msg = .ok rsp) :
    Requests { s with
      handling := s.handling.erase m
      toClient := s.toClient ++ [⟨m.call, rsp⟩]
      answers := ⟨m.call, rsp⟩ :: s.answers } := by
  -- the call's token moves from `handling` to `answers`
  have hissued : State.issued { s with
      handling := s.handling.erase m
      toClient := s.toClient ++ [⟨m.call, rsp⟩]
      answers := ⟨m.call, rsp⟩ :: s.answers } |>.Perm s.issued := by
    refine List.perm_iff_count.mpr fun i => ?_
    have herase := ((List.perm_cons_erase hm).map Tagged.call).count_eq i
    simp only [List.map_cons, List.count_cons] at herase
    simp only [State.issued, List.map_append, List.map_cons, List.count_append, List.count_cons]
    omega
  constructor
  · intro m' hm'
    apply h.pending m'
    simp only [List.mem_append] at hm' ⊢
    rcases hm' with hm' | hm'
    · exact .inl hm'
    · exact .inr (List.mem_of_mem_erase hm')
  · intro r hr
    rcases List.mem_cons.mp hr with rfl | hr
    · obtain ⟨k, hk, hreq⟩ := h.pending m (List.mem_append_right _ hm)
      exact ⟨k, hk, services, by rw [← hreq, hrsp]⟩
    · exact h.answered r hr
  · intro c k hk hp hc
    rw [hissued.mem_iff] at hc
    exact h.unissued c k hk hp hc
  · exact hissued.nodup_iff.mpr h.once

theorem Requests.step {s t : State} {a : Action} (hreg : Registry s) (h : Requests s)
    (hs : Step s a t) : Requests t := by
  cases hs with
  | begin payload =>
      refine h.congr ?_ (List.Perm.refl _) rfl
      intro c k hk
      have hlt := hreg.known c k hk
      exact ⟨k, by rw [calls_register, if_neg (by omega), hk], rfl, id⟩
  | enqueue hk hp => exact h.enqueue hk hp
  | send hq =>
      refine h.congr (fun c k hk => ⟨k, hk, rfl, id⟩) (List.perm_iff_count.mpr fun m => ?_) rfl
      simp only [hq, List.count_append, List.count_cons, List.count_nil]
      omega
  | serverRecv hq =>
      refine h.congr (fun c k hk => ⟨k, hk, rfl, id⟩) (List.perm_iff_count.mpr fun m => ?_) rfl
      simp only [hq, List.count_append, List.count_cons]
      omega
  | serverFinish hm hrsp => exact h.serverFinish hm hrsp
  | clientRecv hq =>
      rename_i r rest
      exact handleRecv_ind { s with toClient := rest } r
        (h.congr (fun c k hk => ⟨k, hk, rfl, id⟩) (List.Perm.refl _) rfl)
        fun c k _ hk => h.congr (calls_of_setCall rfl hk rfl id) (List.Perm.refl _) rfl
  | pop hk hp hc =>
      exact h.congr (calls_of_setCall rfl hk rfl (fun h => nomatch h)) (List.Perm.refl _)
        rfl
  | timeout hk hp =>
      exact h.congr (calls_of_setCall rfl hk rfl (fun h => nomatch h)) (List.Perm.refl _)
        rfl
  | erase hk hp =>
      exact h.congr (calls_of_setCall rfl hk rfl (fun h => nomatch h)) (List.Perm.refl _)
        rfl

end

/-! ## from an answer to its caller -/

/-- Every response in flight is an answer, is delivered at most once and only
to its own call, and what a caller gets was delivered to it. -/
structure Responses (s : State) : Prop where
  arriving : ∀ r ∈ s.toClient, r ∈ s.answers
  delivered : ∀ d ∈ s.deliveries, d.1 = d.2.call ∧ d.2 ∈ s.answers
  once : (s.toClient.map Tagged.call ++ s.deliveries.map fun d => d.2.call).Nodup
  channels : ∀ c k, s.calls c = some k → ∀ r ∈ k.recvChan, (c, r) ∈ s.deliveries
  outcomes : ∀ c k r, s.calls c = some k →
    k.phase = .woken (.response r) ∨ k.phase = .ended (.response r) → (c, r) ∈ s.deliveries

/-- Steps at one caller that take nothing new out of its channel. -/
theorem Responses.setCall {s t : State} {c : Nat} {k' : Call}
    (hcalls : t.calls = (s.setCall c k').calls) (hclient : t.toClient = s.toClient)
    (hanswers : t.answers = s.answers) (hdeliveries : t.deliveries = s.deliveries)
    (h : Responses s) (hchan : ∀ r ∈ k'.recvChan, (c, r) ∈ s.deliveries)
    (hphase : ∀ r, k'.phase = .woken (.response r) ∨ k'.phase = .ended (.response r) →
      (c, r) ∈ s.deliveries) : Responses t := by
  constructor
  · rw [hclient, hanswers]
    exact h.arriving
  · rw [hdeliveries, hanswers]
    exact h.delivered
  · rw [hclient, hdeliveries]
    exact h.once
  · intro c' k₀ hk₀
    rw [hdeliveries]
    rcases setCall_cases hcalls hk₀ with ⟨rfl, rfl⟩ | ⟨-, hk₀⟩
    · exact hchan
    · exact h.channels c' k₀ hk₀
  · intro c' k₀ r hk₀
    rw [hdeliveries]
    rcases setCall_cases hcalls hk₀ with ⟨rfl, rfl⟩ | ⟨-, hk₀⟩
    · exact hphase r
    · exact h.outcomes c' k₀ r hk₀

theorem Responses.begin {s : State} (h : Responses s) (payload : Bytes) :
    Responses (s.register payload) := by
  constructor
  · exact h.arriving
  · exact h.delivered
  · exact h.once
  · intro c k hk
    rw [calls_register] at hk
    split at hk
    · cases hk
      exact fun r hr => absurd hr List.not_mem_nil
    · exact h.channels c k hk
  · intro c k r hk hp
    rw [calls_register] at hk
    split at hk
    · cases hk
      rcases hp with hp | hp <;> cases hp
    · exact h.outcomes c k r hk hp

section
variable [Machine]

/-- The id of a response is mapped to its own call, if to any. -/
theorem outstanding_of_answer {s : State} (hreg : Registry s) (hreq : Requests s)
    (hb : s.begun < 2 ^ 64) {r : Tagged} (hr : r ∈ s.answers) {c : Nat}
    (hc : s.outstanding r.msg.seq = some c) : c = r.call := by
  obtain ⟨k, hk, services, hrsp⟩ := hreq.answered r hr
  obtain ⟨k', hk', hid, -⟩ := hreg.owner _ c hc
  rw [(handleMethodCall_seq hrsp).1, (hreg.ids _ k hk).2, (hreg.ids _ k hk).1,
    (hreg.ids c k' hk').1] at hid
  have hlt := hreg.known _ k hk
  have hlt' := hreg.known c k' hk'
  exact ofNat_inj (by omega) (by omega) hid

/-- A coroutine that finishes answers a call that had no answer yet. -/
theorem Responses.serverFinish {s : State} (hreq : Requests s) (h : Responses s) {m : Tagged}
    {rsp : Protocol} (hm : m ∈ s.handling) :
    Responses { s with
      handling := s.handling.erase m
      toClient := s.toClient ++ [⟨m.call, rsp⟩]
      answers := ⟨m.call, rsp⟩ :: s.answers } := by
  have hnew : ∀ r ∈ s.answers, r.call ≠ m.call := by
    intro r hr heq
    have hnodup := hreq.once
    rw [State.issued, List.map_append, List.nodup_append] at hnodup
    exact hnodup.2.2 m.call (List.mem_map_of_mem (List.mem_append_right _ hm)) r.call
      (List.mem_map_of_mem hr) heq.symm
  have hperm : ((s.toClient ++ [(⟨m.call, rsp⟩ : Tagged)]).map Tagged.call ++
      s.deliveries.map fun d => d.2.call).Perm
      (m.call :: (s.toClient.map Tagged.call ++ s.deliveries.map fun d => d.2.call)) := by
    refine List.perm_iff_count.mpr fun i => ?_
    simp only [List.map_append, List.map_cons, List.map_nil, List.count_append, List.count_cons,
      List.count_nil]
    omega
  constructor
  · intro r hr
    rcases List.mem_append.mp hr with hr | hr
    · exact List.mem_cons_of_mem _ (h.arriving r hr)
    · rw [List.mem_singleton.mp hr]
      exact List.mem_cons_self
  · intro d hd
    exact ⟨(h.delivered d hd).1, List.mem_cons_of_mem _ (h.delivered d hd).2⟩
  · rw [hperm.nodup_iff, List.nodup_cons]
    refine ⟨?_, h.once⟩
    intro hmem
    rcases List.mem_append.mp hmem with hmem | hmem
    · obtain ⟨r, hr, heq⟩ := List.mem_map.mp hmem
      exact hnew r (h.arriving r hr) heq
    · obtain ⟨d, hd, heq⟩ := List.mem_map.mp hmem
      exact hnew d.2 (h.delivered d hd).2 heq
  · exact h.channels
  · exact h.outcomes

/-- A response that is received reaches at most the channel of its own call. -/
theorem Responses.clientRecv {s : State} (hreg : Registry s) (hreq : Requests s)
    (hb : s.begun < 2 ^ 64) (h : Responses s) {r : Tagged} {rest : List Tagged}
    (hq : s.toClient = r :: rest) : Responses ({ s with toClient := rest }.handleRecv r) := by
  have hr : r ∈ s.answers := h.arriving r (by rw [hq]; exact List.mem_cons_self)
  have hrest : ∀ r' ∈ rest, r' ∈ s.answers := fun r' hr' =>
    h.arriving r' (by rw [hq]; exact List.mem_cons_of_mem _ hr')
  have honce := h.once
  rw [hq, List.map_cons, List.cons_append, List.nodup_cons] at honce
  rcases handleRecv_cases { s with toClient := rest } r with heq | ⟨c, k, hc, hk, heq⟩
  · rw [heq]
    exact ⟨hrest, h.delivered, honce.2, h.channels, h.outcomes⟩
  · have hown : c = r.call := outstanding_of_answer hreg hreq hb hr hc
    rw [heq]
    constructor
    · exact hrest
    · intro d hd
      rcases List.mem_cons.mp hd with rfl | hd
      · exact ⟨hown, hr⟩
      · exact h.delivered d hd
    · have hperm : (rest.map Tagged.call ++ ((c, r) :: s.deliveries).map fun d => d.2.call).Perm
          (r.call :: (rest.map Tagged.call ++ s.deliveries.map fun d => d.2.call)) := by
        refine List.perm_iff_count.mpr fun i => ?_
        simp only [List.map_cons, List.count_append, List.count_cons]
        omega
      exact hperm.nodup_iff.mpr (List.nodup_cons.mpr honce)
    · intro c' k₀ hk₀ r' hr'
      rcases setCall_cases (s := s) rfl hk₀ with ⟨rfl, rfl⟩ | ⟨-, hk₀⟩
      · rcases List.mem_append.mp hr' with hr' | hr'
        · exact List.mem_cons_of_mem _ (h.channels _ k hk r' hr')
        · rw [List.mem_singleton.mp hr']
          exact List.mem_cons_self
      · exact List.mem_cons_of_mem _ (h.channels c' k₀ hk₀ r' hr')
    · intro c' k₀ r' hk₀ hp
      rcases setCall_cases (s := s) rfl hk₀ with ⟨rfl, rfl⟩ | ⟨-, hk₀⟩
      · exact List.mem_cons_of_mem _ (h.outcomes _ k r' hk hp)
      · exact List.mem_cons_of_mem _ (h.outcomes c' k₀ r' hk₀ hp)

theorem Responses.step {s t : State} {a : Action} (hreg : Registry s) (hreq : Requests s)
    (hb : t.begun < 2 ^ 64) (h : Responses s) (hs : Step s a t) : Responses t := by
  have hle := begun_le hs
  cases hs with
  | begin payload => exact h.begin payload
  | enqueue hk hp =>
      have hchan := h.channels _ _ hk
      exact .setCall rfl rfl rfl rfl h hchan (fun r hr => by simp at hr)
  | send hq => exact ⟨h.arriving, h.delivered, h.once, h.channels, h.outcomes⟩
  | serverRecv hq => exact ⟨h.arriving, h.delivered, h.once, h.channels, h.outcomes⟩
  | serverFinish hm hrsp => exact h.serverFinish hreq hm
  | clientRecv hq => exact h.clientRecv hreg hreq (by omega) hq
  | pop hk hp hc =>
      have hmem := h.channels _ _ hk
      rw [hc] at hmem
      refine .setCall rfl rfl rfl rfl h (fun r hr => hmem r (List.mem_cons_of_mem _ hr)) ?_
      intro r hr
      simp only [Phase.woken.injEq, Outcome.response.injEq, reduceCtorEq, or_false] at hr
      exact hr ▸ hmem _ List.mem_cons_self
  | timeout hk hp =>
      have hchan := h.channels _ _ hk
      exact .setCall rfl rfl rfl rfl h hchan (fun r hr => by simp at hr)
  | erase hk hp =>
      have hchan := h.channels _ _ hk
      refine .setCall rfl rfl rfl rfl h hchan ?_
      intro r hr
      simp only [reduceCtorEq, Phase.ended.injEq, false_or] at hr
      exact h.outcomes _ _ r hk (.inl (by rw [hp, hr]))

end

end Calls
end XzmjxRpc
