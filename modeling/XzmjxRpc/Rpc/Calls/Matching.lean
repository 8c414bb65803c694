import XzmjxRpc.Rpc.Calls.Invariant

/-!
# XzmjxRpc.Rpc.Calls.Matching

What callers can rely on: in every state that calls, coroutines, responses
and timeouts lead to in any order, each call that got a response got the
answer to its own request.
-/

namespace XzmjxRpc
namespace Calls

theorem init_registry : Registry init := by
  constructor
  · rfl
  all_goals
    intro _ _ h
    cases h

theorem init_responses : Responses init := by
  constructor
  · exact fun r hr => absurd hr List.not_mem_nil
  · exact fun d hd => absurd hd List.not_mem_nil
  · exact List.nodup_nil
  · intro c k hk
    cases hk
  · intro c k r hk
    cases hk

/-- Moving a call on that has not ended leaves the ended ones alone. -/
theorem ended_of_setCall {s t : State} {c₀ : Nat} {k₀ k₁ : Call}
    (hcalls : t.calls = (s.setCall c₀ k₁).calls) (hk₀ : s.calls c₀ = some k₀)
    (hphase : ∀ out, k₀.phase = .ended out → k₁.phase = .ended out) {c : Nat} {k : Call}
    {out : Outcome} (hk : s.calls c = some k) (hp : k.phase = .ended out) :
    ∃ k', t.calls c = some k' ∧ k'.phase = .ended out := by
  simp only [hcalls, calls_setCall]
  by_cases hc : c = c₀
  · subst hc
    rw [hk₀] at hk
    cases hk
    exact ⟨k₁, if_pos rfl, hphase out hp⟩
  · exact ⟨k, (if_neg hc).trans hk, hp⟩

section
variable [Machine]

theorem init_requests : Requests init := by
  constructor
  · exact fun m hm => absurd hm List.not_mem_nil
  · exact fun r hr => absurd hr List.not_mem_nil
  · intro c k hk
    cases hk
  · exact List.nodup_nil

/-- The invariant holds as long as the ids have not wrapped around. -/
theorem Reachable.invariant {s : State} (h : Reachable s) (hb : s.begun < 2 ^ 64) :
    Registry s ∧ Requests s ∧ Responses s := by
  obtain ⟨as, hrun⟩ := h
  refine Lts.Run.invariant
    (I := fun s => s.begun < 2 ^ 64 → Registry s ∧ Requests s ∧ Responses s)
    (fun _ => ⟨init_registry, init_requests, init_responses⟩) ?_ hrun hb
  intro s a t ih hs hb
  have hle := begun_le hs
  obtain ⟨hreg, hreq, hrsp⟩ := ih (by omega)
  exact ⟨hreg.step hb hs, hreq.step hreg hs, hrsp.step hreg hreq hb hs⟩

/-- The outcome of a call is final. -/
theorem ended_of_step {s t : State} {a : Action} (hs : Step s a t) (hreg : Registry s) {c : Nat}
    {k : Call} {out : Outcome} (hk : s.calls c = some k) (hp : k.phase = .ended out) :
    ∃ k', t.calls c = some k' ∧ k'.phase = .ended out := by
  cases hs with
  | begin payload =>
      have hlt := hreg.known c k hk
      exact ⟨k, by rw [calls_register, if_neg (by omega), hk], hp⟩
  | clientRecv hq =>
      rename_i r rest
      refine handleRecv_ind (P := fun t => ∃ k', t.calls c = some k' ∧ k'.phase = .ended out)
        { s with toClient := rest } r ⟨k, hk, hp⟩ fun c₀ k₀ _ hk₀ => ?_
      have hphase : ∀ out, k₀.phase = .ended out →
          { k₀ with recvChan := k₀.recvChan ++ [r] }.phase = .ended out := fun _ h => h
      exact ended_of_setCall rfl hk₀ hphase hk hp
  | enqueue hk₀ hp₀ =>
      exact ended_of_setCall rfl hk₀ (fun _ h => by rw [hp₀] at h; cases h) hk hp
  | pop hk₀ hp₀ hc₀ =>
      exact ended_of_setCall rfl hk₀ (fun _ h => by rw [hp₀] at h; cases h) hk hp
  | timeout hk₀ hp₀ =>
      exact ended_of_setCall rfl hk₀ (fun _ h => by rw [hp₀] at h; cases h) hk hp
  | erase hk₀ hp₀ =>
      exact ended_of_setCall rfl hk₀ (fun _ h => by rw [hp₀] at h; cases h) hk hp
  | _ => exact ⟨k, hk, hp⟩

/-- A response that arrives wakes no call by itself and touches no call but its own. -/
theorem calls_of_clientRecv {s t : State} (hreg : Registry s) (hreq : Requests s)
    (hrsp : Responses s) (hb : s.begun < 2 ^ 64) (hs : Step s .clientRecv t) {r : Tagged}
    {rest : List Tagged} (hq : s.toClient = r :: rest) {c : Nat} {k : Call}
    (hk : s.calls c = some k) :
    ∃ k', t.calls c = some k' ∧ k'.phase = k.phase ∧ (c ≠ r.call → k' = k) := by
  cases hs with
  | clientRecv hq' =>
      rw [hq] at hq'
      cases hq'
      have hr : r ∈ s.answers := hrsp.arriving r (by rw [hq]; exact List.mem_cons_self)
      rcases handleRecv_cases { s with toClient := rest } r with heq | ⟨c₀, k₀, hc₀, hk₀, heq⟩
      · rw [heq]
        exact ⟨k, hk, rfl, fun _ => rfl⟩
      · have hown : c₀ = r.call := outstanding_of_answer hreg hreq hb hr hc₀
        rw [heq]
        show ∃ k', (s.setCall c₀ { k₀ with recvChan := k₀.recvChan ++ [r] }).calls c = some k' ∧ _
        rw [calls_setCall]
        by_cases hc : c = c₀
        · have hk₀ : s.calls c₀ = some k₀ := hk₀
          subst hc
          rw [hk] at hk₀
          cases hk₀
          exact ⟨_, if_pos rfl, rfl, fun hne => absurd hown hne⟩
        · exact ⟨k, (if_neg hc).trans hk, rfl, fun _ => rfl⟩

/-- What holds of the calls on one connection. -/
structure Matched (s : State) : Prop where
  /-- A call that ends with a response ends with the one the server made for its request. -/
  own : ∀ c k r, s.calls c = some k → k.phase = .ended (.response r) →
    r ∈ s.answers ∧ r.call = c ∧ ∃ services, handleMethodCall services k.req = .ok r.msg
  /-- The server answers a request at most once. -/
  answered : (s.answers.map Tagged.call).Nodup
  /-- No response is delivered twice, or to two calls. -/
  delivered : s.deliveries.Nodup ∧
    ∀ c c' r r', (c, r) ∈ s.deliveries → (c', r') ∈ s.deliveries → r.call = r'.call → c = c'
  /-- A response that arrives, after its call's timeout or before, changes no
  outcome, and nothing at all of another call. -/
  late : ∀ t, Step s .clientRecv t → ∀ r rest, s.toClient = r :: rest →
    ∀ c k, s.calls c = some k →
      ∃ k', t.calls c = some k' ∧ k'.phase = k.phase ∧ (c ≠ r.call → k' = k)
  /-- Outcomes are final. -/
  final : ∀ a t, Step s a t → ∀ c k out, s.calls c = some k → k.phase = .ended out →
    ∃ k', t.calls c = some k' ∧ k'.phase = .ended out
  /-- The ids of outstanding calls are distinct. -/
  distinct : ∀ c c' k k', s.calls c = some k → s.calls c' = some k' → k.phase.Outstanding →
    k'.phase.Outstanding → c ≠ c' → k.id ≠ k'.id

/-- **Calls and responses match**: in every state reached with fewer than
`2 ^ 64` calls, whatever the order of requests, completions, responses and
timeouts was. -/
theorem reachable_matched {s : State} (h : Reachable s) (hb : s.begun < 2 ^ 64) : Matched s := by
  obtain ⟨hreg, hreq, hrsp⟩ := h.invariant hb
  constructor
  · intro c k r hk hp
    have hmem := hrsp.outcomes c k r hk (.inr hp)
    obtain ⟨hc, hr⟩ := hrsp.delivered _ hmem
    obtain ⟨k', hk', hanswer⟩ := hreq.answered r hr
    have hc : c = r.call := hc
    rw [← hc, hk] at hk'
    cases hk'
    exact ⟨hr, hc.symm, hanswer⟩
  · have hnodup := hreq.once
    rw [State.issued, List.map_append, List.nodup_append] at hnodup
    exact hnodup.2.1
  · refine ⟨?_, ?_⟩
    · exact List.Nodup.of_map _ (List.nodup_append.mp hrsp.once).2.1
    · intro c c' r r' hr hr' hcall
      have hc : c = r.call := (hrsp.delivered _ hr).1
      have hc' : c' = r'.call := (hrsp.delivered _ hr').1
      rw [hc, hc', hcall]
  · exact fun t hs r rest hq c k hk => calls_of_clientRecv hreg hreq hrsp hb hs hq hk
  · exact fun a t hs c k out hk hp => ended_of_step hs hreg hk hp
  · intro c c' k k' hk hk' hp hp' hne hid
    have hmine := hreg.listed c k hk hp
    rw [hid, hreg.listed c' k' hk' hp'] at hmine
    exact hne (Option.some.inj hmine).symm

end

/-- Two calls: the second one's request is answered first, the first one
times out. -/
theorem reachable_matched_timeout :
    letI := x86_64
    ∃ s, Reachable s ∧ Matched s ∧
      (∃ k, s.calls 0 = some k ∧ k.phase = .ended .timeout) ∧
      ∃ k r, s.calls 1 = some k ∧ k.phase = .ended (.response r) := by
  let m := x86_64
  have h0 : Reachable init := ⟨[], .nil⟩
  have h1 := h0.step (.begin _ (requestPayload ⟨[102], by decide⟩ [] ()))
  have h2 := h1.step (.begin _ (requestPayload ⟨[102], by decide⟩ [] ()))
  have h3 := h2.step (.enqueue (c := 0) rfl rfl)
  have h4 := h3.step (.enqueue (c := 1) rfl rfl)
  have h5 := h4.step (.send rfl)
  have h6 := h5.step (.send rfl)
  have h7 := h6.step (.serverRecv rfl)
  have h8 := h7.step (.serverRecv rfl)
  have hrsp : handleMethodCall (fun _ => some ownName) (request ⟨[102], by decide⟩ [] () 1) =
      .ok (.create .kRpcMethodResponse { code := .kRpcSuccess }
        (requestPayload ⟨[102], by decide⟩ [] ()) 1) :=
    handleMethodCall_request (m := ownName) rfl rfl 1
  have h9 := h8.step (.serverFinish List.mem_cons_self hrsp)
  have h10 := h9.step (.timeout (c := 0) rfl rfl)
  have h11 := h10.step (.erase (c := 0) rfl rfl)
  have h12 := h11.step (.clientRecv rfl)
  have h13 := h12.step (.pop (c := 1) rfl rfl rfl)
  have h14 := h13.step (.erase (c := 1) rfl rfl)
  exact ⟨_, h14, reachable_matched h14 (by decide), ⟨_, rfl, rfl⟩, _, _, rfl, rfl⟩

end Calls
end XzmjxRpc
