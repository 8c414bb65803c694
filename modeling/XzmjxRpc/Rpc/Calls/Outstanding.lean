import XzmjxRpc.Rpc.Calls

/-!
# XzmjxRpc.Rpc.Calls.Outstanding

`m_outstanding_call` under the steps that reach it one by one.

The callers use the map under `m_guard`; `handleMethodResponse` does not, and
it uses it twice: `find(id)`, then `m_outstanding_call[id] << msg`.  A caller
that times out may erase the id in between, and then the indexing puts the id
back, with a channel that nobody reads.  The map holds the ids of the calls
under way as long as that does not happen, and no id is erased while another
call has it too (`exact_of_run`).

`XzmjxRpc.Rpc.Calls` takes the two accesses as one step: its runs are among
those of this module (`exists_run_of_calls`).
-/

namespace XzmjxRpc
namespace Outstanding

open Function

/-! ## the map and its users -/

/-- A channel: the `recv_chan` of a call, or one that indexing the map made. -/
inductive Chan where
  | call (c : Nat)
  | made (n : Nat)
  deriving DecidableEq

/-- A `call_internal` that has inserted its channel. -/
structure Call where
  id : BitVec 64
  /-- It has been in its second locked section. -/
  erased : Bool

/-- Where the receive loop is. -/
inductive Loop where
  | idle
  /-- In `handleMethodResponse`, past the lookup, which found the id. -/
  | found (msg : Protocol)
  /-- It pushed into a channel that no call waits on.  The channels have no
  buffer, so the push does not return. -/
  | blocked

structure State where
  calls : Nat → Option Call
  begun : Nat
  /-- `m_seq_id`. -/
  seqId : BitVec 64
  /-- `m_outstanding_call`. -/
  outstanding : BitVec 64 → Option Chan
  /-- The number of channels that indexing made. -/
  made : Nat
  /-- What `handleMethodResponse` pushed, and where, the last push first. -/
  pushes : List (Chan × Protocol)
  loop : Loop

/-- A fresh connection. -/
def init : State where
  calls _ := none
  begun := 0
  seqId := 0
  outstanding _ := none
  made := 0
  pushes := []
  loop := .idle

namespace State

/-- The first locked section: `id = m_seq_id++; m_outstanding_call.insert({id,
recv_chan})`, which leaves an id that is already there alone. -/
def register (s : State) : State :=
  { s with
    calls := update s.calls s.begun (some ⟨s.seqId, false⟩)
    begun := s.begun + 1
    seqId := s.seqId + 1
    outstanding :=
      if s.outstanding s.seqId = none then update s.outstanding s.seqId (some (.call s.begun))
      else s.outstanding }

/-- The second locked section of call `c`: `m_outstanding_call.erase(id);
recv_chan.close()`. -/
def erase (s : State) (c : Nat) (k : Call) : State :=
  { s with
    calls := update s.calls c (some { k with erased := true })
    outstanding := update s.outstanding k.id none }

/-- A call waits on its channel from its first locked section to its second. -/
def waits (s : State) : Chan → Bool
  | .call c => (s.calls c).any fun k => !k.erased
  | .made _ => false

/-- `handleMethodResponse(msg)` as far as the lookup. -/
def lookup (s : State) (msg : Protocol) : State :=
  if (s.outstanding msg.seq).isSome then { s with loop := .found msg } else s

/-- `m_outstanding_call[id]`: the channel, and the map with it. -/
def get (s : State) (id : BitVec 64) : Chan × State :=
  match s.outstanding id with
  | some ch => (ch, s)
  | none =>
      (.made s.made,
        { s with
          outstanding := update s.outstanding id (some (.made s.made))
          made := s.made + 1 })

/-- The rest of `handleMethodResponse`: `m_outstanding_call[id] << msg`. -/
def index (s : State) (msg : Protocol) : State :=
  let (ch, s) := s.get msg.seq
  { s with
    pushes := (ch, msg) :: s.pushes
    loop := if s.waits ch then .idle else .blocked }

end State

/-- What can happen next. -/
inductive Action where
  | begin
  | erase (c : Nat)
  | lookup (msg : Protocol)
  | index

/-- One step: a caller's locked section, or one of the two steps of
`handleMethodResponse`, for whatever response comes in. -/
inductive Step : State → Action → State → Prop
  | begin (s : State) : Step s .begin s.register
  | erase {s : State} {c : Nat} {k : Call} (hk : s.calls c = some k) (hp : k.erased = false) :
      Step s (.erase c) (s.erase c k)
  | lookup {s : State} (msg : Protocol) (hl : s.loop = .idle) :
      Step s (.lookup msg) (s.lookup msg)
  | index {s : State} (msg : Protocol) (hl : s.loop = .found msg) : Step s .index (s.index msg)

/-! ## what holds of every run -/

/-- The call has inserted its id and not erased it. -/
def Live (s : State) (c : Nat) (k : Call) : Prop := s.calls c = some k ∧ k.erased = false

theorem waits_call {s : State} {c : Nat} : s.waits (.call c) = true ↔ ∃ k, Live s c k := by
  simp [State.waits, Live, Option.any_eq_true]

/-- Call numbers are new, and the channel of a call is in the map under the
call's id and as long as the call is live. -/
structure Inv (s : State) : Prop where
  fresh : ∀ c, s.begun ≤ c → s.calls c = none
  owner : ∀ id c, s.outstanding id = some (.call c) → ∃ k, Live s c k ∧ k.id = id

theorem inv_init : Inv init := ⟨fun _ _ => rfl, nofun⟩

/-- The calls that are live after an insertion. -/
theorem live_register {s : State} (hs : Inv s) {c : Nat} {k : Call} :
    Live s.register c k ↔ c = s.begun ∧ k = ⟨s.seqId, false⟩ ∨ Live s c k := by
  simp only [Live, State.register, update_apply]
  by_cases hc : c = s.begun
  · have hnone := hs.fresh c (Nat.le_of_eq hc.symm)
    simp only [if_pos hc]
    grind
  · simp [hc]

/-- Those live after an erasure. -/
theorem live_erase {s : State} {c : Nat} (k : Call) {c' : Nat} {k' : Call} :
    Live (s.erase c k) c' k' ↔ c' ≠ c ∧ Live s c' k' := by
  simp only [Live, State.erase, update_apply]
  by_cases hc : c' = c
  · simp only [if_pos hc]
    grind
  · simp [hc]

theorem Inv.register {s : State} (hs : Inv s) : Inv s.register where
  fresh := by
    intro c hc
    have hne : c ≠ s.begun := Nat.ne_of_gt hc
    exact (update_of_ne hne _ _).trans (hs.fresh c (Nat.le_of_succ_le hc))
  owner := by
    intro id c hid
    simp only [live_register hs]
    -- the entry is the new one, or it was there before
    have hcases : id = s.seqId ∧ c = s.begun ∨ s.outstanding id = some (.call c) := by
      simp only [State.register] at hid
      split at hid
      · rw [update_apply] at hid
        split at hid
        · next heq =>
          cases hid
          exact .inl ⟨heq, rfl⟩
        · exact .inr hid
      · exact .inr hid
    rcases hcases with ⟨rfl, rfl⟩ | hold
    · exact ⟨_, .inl ⟨rfl, rfl⟩, rfl⟩
    · obtain ⟨k, hk, hkid⟩ := hs.owner id c hold
      exact ⟨k, .inr hk, hkid⟩

theorem Inv.erase {s : State} (hs : Inv s) {c : Nat} {k : Call} (hk : s.calls c = some k) :
    Inv (s.erase c k) where
  fresh := by
    intro c' hc'
    have hne : c' ≠ c := by
      rintro rfl
      cases (hs.fresh c' hc').symm.trans hk
    exact (update_of_ne hne _ _).trans (hs.fresh c' hc')
  owner := by
    intro id c' hid
    simp only [State.erase, update_apply] at hid
    split at hid
    · cases hid
    · next hne =>
      obtain ⟨k', hk', hkid⟩ := hs.owner id c' hid
      refine ⟨k', (live_erase k).mpr ⟨?_, hk'⟩, hkid⟩
      rintro rfl
      cases hk.symm.trans hk'.1
      exact hne hkid.symm

theorem Inv.lookup {s : State} (hs : Inv s) (msg : Protocol) : Inv (s.lookup msg) := by
  unfold State.lookup
  split
  · exact ⟨hs.fresh, hs.owner⟩
  · exact hs

theorem Inv.index {s : State} (hs : Inv s) (msg : Protocol) : Inv (s.index msg) := by
  unfold State.index State.get
  cases hout : s.outstanding msg.seq with
  | some ch => exact ⟨hs.fresh, hs.owner⟩
  | none =>
      refine ⟨hs.fresh, ?_⟩
      intro id c hid
      simp only [update_apply] at hid
      split at hid
      · cases hid
      · exact hs.owner id c hid

/-- An id that is mapped to the channel of a call: the call waits on it. -/
theorem Inv.index_eq {s : State} (hs : Inv s) {msg : Protocol} {c : Nat}
    (h : s.outstanding msg.seq = some (.call c)) :
    s.index msg = { s with pushes := (.call c, msg) :: s.pushes, loop := .idle } := by
  obtain ⟨k, hk, -⟩ := hs.owner _ c h
  simp only [State.index, State.get, h, if_pos (waits_call.mpr ⟨k, hk⟩)]

theorem Inv.step {s t : State} {a : Action} (hs : Inv s) (h : Step s a t) : Inv t := by
  cases h with
  | begin => exact hs.register
  | erase hk hp => exact hs.erase hk
  | lookup msg hl => exact hs.lookup msg
  | index msg hl => exact hs.index msg

/-! ## the ids in the map -/

/-- The ids in the map are those of the live calls. -/
def Exact (s : State) : Prop :=
  ∀ id, (s.outstanding id).isSome ↔ ∃ c k, Live s c k ∧ k.id = id

/-- The id that is indexed has not been erased since the lookup, and the id
that is erased is not that of another call as well, as it can be when `2 ^ 64`
calls begin in the meantime. -/
def Timely (s : State) : Action → Prop
  | .index => ∀ msg, s.loop = .found msg → (s.outstanding msg.seq).isSome
  | .erase c => ∀ k, s.calls c = some k → ∀ c' k', c' ≠ c → Live s c' k' → k'.id ≠ k.id
  | _ => True

/-- What the receive loop relies on. -/
structure Sound (s : State) : Prop where
  inv : Inv s
  ids : Exact s
  /-- No channel was made by indexing. -/
  calls_only : ∀ id n, s.outstanding id ≠ some (.made n)
  unblocked : s.loop ≠ .blocked

theorem sound_init : Sound init := ⟨inv_init, by simp [Exact, init, Live], nofun, nofun⟩

/-- A new call's id is in the map, by its insertion or because it was there. -/
theorem Sound.register {s : State} (hs : Sound s) : Sound s.register := by
  refine ⟨hs.inv.register, ?_, ?_, hs.unblocked⟩
  · intro id
    have hold := hs.ids id
    simp only [live_register hs.inv]
    have hsome : (s.register.outstanding id).isSome ↔
        id = s.seqId ∨ (s.outstanding id).isSome := by
      simp only [State.register]
      split
      · grind [update_apply]
      · next hne =>
        have htaken := Option.isSome_iff_ne_none.mpr hne
        grind
    rw [hsome, hold]
    grind
  · intro id n
    have hold := hs.calls_only id n
    simp only [State.register]
    split <;> grind [update_apply]

theorem Sound.erase {s : State} (hs : Sound s) {c : Nat} {k : Call} (hk : s.calls c = some k)
    (hc : Timely s (.erase c)) : Sound (s.erase c k) := by
  refine ⟨hs.inv.erase hk, ?_, ?_, hs.unblocked⟩
  · intro id
    have hold := hs.ids id
    simp only [live_erase]
    by_cases hid : id = k.id
    · subst hid
      have hnone : (s.erase c k).outstanding k.id = none := update_self ..
      rw [hnone]
      refine iff_of_false (by simp) ?_
      rintro ⟨c', k', ⟨hne, hlive⟩, heq⟩
      exact hc k hk c' k' hne hlive heq
    · have hsame : (s.erase c k).outstanding id = s.outstanding id := update_of_ne hid _ _
      rw [hsame, hold]
      constructor
      · rintro ⟨c', k', hlive, heq⟩
        refine ⟨c', k', ⟨?_, hlive⟩, heq⟩
        rintro rfl
        cases hk.symm.trans hlive.1
        exact hid heq.symm
      · rintro ⟨c', k', ⟨-, hlive⟩, heq⟩
        exact ⟨c', k', hlive, heq⟩
  · intro id n
    have hold := hs.calls_only id n
    simp only [State.erase]
    grind [update_apply]

theorem Sound.lookup {s : State} (hs : Sound s) (msg : Protocol) : Sound (s.lookup msg) := by
  have hinv := hs.inv.lookup msg
  unfold State.lookup at hinv ⊢
  split
  · next hfound =>
    rw [if_pos hfound] at hinv
    exact ⟨hinv, hs.ids, hs.calls_only, nofun⟩
  · exact hs

theorem Sound.index {s : State} (hs : Sound s) {msg : Protocol}
    (hc : (s.outstanding msg.seq).isSome) : Sound (s.index msg) := by
  have hinv := hs.inv.index msg
  obtain ⟨ch, hch⟩ := Option.isSome_iff_exists.mp hc
  cases ch with
  | call c =>
      rw [hs.inv.index_eq hch] at hinv ⊢
      exact ⟨hinv, hs.ids, hs.calls_only, nofun⟩
  | made n => exact absurd hch (hs.calls_only _ n)

theorem Sound.step {s t : State} {a : Action} (hs : Sound s)
    (h : Lts.Restrict Step Timely s a t) : Sound t := by
  obtain ⟨hc, hstep⟩ := h
  cases hstep with
  | begin => exact hs.register
  | erase hk hp => exact hs.erase hk hc
  | lookup msg hl => exact hs.lookup msg
  | index msg hl => exact hs.index (hc msg hl)

/-- **The outstanding calls**: in every run whose indexings find the id still
there, and whose erasures are of ids that no other call has, the map holds
exactly the ids of the calls that have inserted and not erased theirs, and the
receive loop has pushed into no channel that no call waits on. -/
theorem exact_of_run {as : List Action} {s : State}
    (h : Lts.Run (Lts.Restrict Step Timely) init as s) : Exact s ∧ s.loop ≠ .blocked :=
  have hs : Sound s := h.invariant sound_init fun _ _ _ hs hstep => hs.step hstep
  ⟨hs.ids, hs.unblocked⟩

/-- The condition is needed: a step that does not meet it leaves an id without
a call, or a call without its id. -/
theorem not_exact_of_not_timely {s t : State} {a : Action} (hs : Sound s) (h : Step s a t)
    (hc : ¬ Timely s a) : ¬ Exact t := by
  intro hexact
  cases h with
  | begin => exact hc trivial
  | lookup msg hl => exact hc trivial
  | @erase c k hk hp =>
      simp only [Timely, hk, Option.some.injEq, not_forall, not_not, exists_prop] at hc
      obtain ⟨_, rfl, c', k', hne, hlive, heq⟩ := hc
      have hnone : (s.erase c k).outstanding k.id = none := update_self ..
      have hid := (hexact k.id).mpr ⟨c', k', (live_erase k).mpr ⟨hne, hlive⟩, heq⟩
      rw [hnone] at hid
      cases hid
  | index msg hl =>
      simp only [Timely, hl, Loop.found.injEq, not_forall, exists_prop] at hc
      obtain ⟨_, rfl, hnone⟩ := hc
      have hgone := (not_congr (hs.ids msg.seq)).mp hnone
      rw [Option.not_isSome_iff_eq_none] at hnone
      have hmade : (s.index msg).outstanding msg.seq = some (.made s.made) := by
        simp only [State.index, State.get, hnone]
        exact update_self ..
      have hcalls : (s.index msg).calls = s.calls := by
        simp only [State.index, State.get, hnone]
      obtain ⟨c, k, hlive, hid⟩ := (hexact msg.seq).mp (by rw [hmade]; rfl)
      rw [Live, hcalls] at hlive
      exact hgone ⟨c, k, hlive, hid⟩

/-! ## the calls of a connection -/

/-- The caller has been in its second locked section. -/
def erased : Calls.Phase → Bool
  | .ended _ => true
  | _ => false

/-- The call as far as the map is concerned. -/
def ofCall (k : Calls.Call) : Call := ⟨k.id, erased k.phase⟩

/-- Calls, map and pushes of a connection, between two messages. -/
structure Shows (s : Calls.State) (o : State) : Prop where
  calls : ∀ c, o.calls c = (s.calls c).map ofCall
  begun : o.begun = s.begun
  seqId : o.seqId = s.seqId
  outstanding : ∀ id, o.outstanding id = (s.outstanding id).map .call
  pushes : o.pushes = s.deliveries.map fun p => (.call p.1, p.2.msg)
  idle : o.loop = .idle

theorem shows_init : Shows Calls.init init := ⟨fun _ => rfl, rfl, rfl, fun _ => rfl, rfl, rfl⟩

/-- A step that moves a call on outside of its locked sections. -/
theorem Shows.setCall {s : Calls.State} {o : State} (h : Shows s o) {c : Nat} {k k' : Calls.Call}
    (hk : s.calls c = some k) (hk' : ofCall k' = ofCall k) : Shows (s.setCall c k') o := by
  refine ⟨?_, h.begun, h.seqId, h.outstanding, h.pushes, h.idle⟩
  intro c'
  rw [h.calls]
  simp only [Calls.State.setCall, update_apply]
  split
  · next heq => rw [heq, hk, Option.map_some, Option.map_some, hk']
  · rfl

theorem Shows.register {s : Calls.State} {o : State} (h : Shows s o) (payload : Bytes) :
    Shows (s.register payload) o.register := by
  refine ⟨?_, congrArg (· + 1) h.begun, congrArg (· + 1) h.seqId, ?_, h.pushes, h.idle⟩
  · intro c
    simp only [State.register, Calls.State.register, update_apply, h.begun, h.seqId]
    split
    · rfl
    · exact h.calls c
  · intro id
    have hid := h.outstanding id
    have hseq := h.outstanding s.seqId
    simp only [State.register, Calls.State.register, h.begun, h.seqId]
    split
    · next hnone =>
      rw [hseq, Option.map_eq_none_iff] at hnone
      rw [if_pos hnone, update_apply, update_apply]
      split
      · rfl
      · exact hid
    · next hsome =>
      rw [hseq, Option.map_eq_none_iff] at hsome
      rw [if_neg hsome]
      exact hid

theorem Shows.erase {s : Calls.State} {o : State} (h : Shows s o) {c : Nat} {k : Calls.Call}
    (out : Calls.Outcome) :
    Shows { s.setCall c { k with phase := .ended out } with
      outstanding := update s.outstanding k.id none } (o.erase c (ofCall k)) := by
  refine ⟨?_, h.begun, h.seqId, ?_, h.pushes, h.idle⟩
  · intro c'
    simp only [State.erase, Calls.State.setCall, update_apply]
    split
    · rfl
    · exact h.calls c'
  · intro id
    simp only [State.erase, update_apply, ofCall]
    split
    · rfl
    · exact h.outstanding id

/-- A response is looked up, and indexed at once if its id was found. -/
theorem Shows.handleMethodResponse {s : Calls.State} {o : State} (h : Shows s o) (ho : Inv o)
    (r : Calls.Tagged) : ∃ bs o', Lts.Run Step o bs o' ∧ Shows (s.handleMethodResponse r) o' := by
  have hid := h.outstanding r.msg.seq
  unfold Calls.State.handleMethodResponse
  cases hout : s.outstanding r.msg.seq with
  | none => exact ⟨[], o, .nil, h⟩
  | some c =>
      rw [hout, Option.map_some] at hid
      have hfound : o.lookup r.msg = { o with loop := .found r.msg } := by
        simp only [State.lookup, hid, Option.isSome_some, if_true]
      have hindex : ({ o with loop := .found r.msg } : State).index r.msg =
          { o with pushes := (.call c, r.msg) :: o.pushes, loop := .idle } :=
        Inv.index_eq (s := { o with loop := .found r.msg }) ⟨ho.fresh, ho.owner⟩ hid
      have hlookup := Step.lookup r.msg h.idle
      rw [hfound] at hlookup
      have hrun := (Lts.Run.single hlookup).snoc (Step.index r.msg rfl)
      rw [hindex] at hrun
      refine ⟨_, _, hrun, ?_⟩
      -- the call that the id is mapped to has not ended
      obtain ⟨k, hlive, -⟩ := ho.owner _ c hid
      have hcall := h.calls c
      rw [hlive.1] at hcall
      obtain ⟨k₀, hk₀, -⟩ := Option.map_eq_some_iff.mp hcall.symm
      have hset := h.setCall hk₀
        (show ofCall { k₀ with recvChan := k₀.recvChan ++ [r] } = ofCall k₀ from rfl)
      simp only [Calls.State.push, hk₀]
      exact ⟨hset.calls, h.begun, h.seqId, h.outstanding, by rw [List.map_cons, h.pushes], rfl⟩

section
variable [Machine]

theorem Shows.step {s t : Calls.State} {o : State} {a : Calls.Action} (h : Shows s o)
    (ho : Inv o) (hstep : Calls.Step s a t) : ∃ bs o', Lts.Run Step o bs o' ∧ Shows t o' := by
  cases hstep with
  | begin payload => exact ⟨_, _, .single (.begin o), h.register payload⟩
  | @enqueue c k hk hp =>
      have hset := h.setCall hk
        (show ofCall { k with phase := .waiting } = ofCall k by rw [ofCall, ofCall, hp]; rfl)
      exact ⟨[], o, .nil, ⟨hset.calls, h.begun, h.seqId, h.outstanding, h.pushes, h.idle⟩⟩
  | send hq => exact ⟨[], o, .nil, ⟨h.calls, h.begun, h.seqId, h.outstanding, h.pushes, h.idle⟩⟩
  | serverRecv hq =>
      exact ⟨[], o, .nil, ⟨h.calls, h.begun, h.seqId, h.outstanding, h.pushes, h.idle⟩⟩
  | serverFinish hm hrsp =>
      exact ⟨[], o, .nil, ⟨h.calls, h.begun, h.seqId, h.outstanding, h.pushes, h.idle⟩⟩
  | @clientRecv r rest hq =>
      have hrest : Shows { s with toClient := rest } o :=
        ⟨h.calls, h.begun, h.seqId, h.outstanding, h.pushes, h.idle⟩
      unfold Calls.State.handleRecv
      split
      · exact hrest.handleMethodResponse ho r
      · exact ⟨[], o, .nil, hrest⟩
  | @pop c k r rest hk hp hc =>
      exact ⟨[], o, .nil, h.setCall hk (by rw [ofCall, ofCall, hp]; rfl)⟩
  | @timeout c k hk hp =>
      exact ⟨[], o, .nil, h.setCall hk (by rw [ofCall, ofCall, hp]; rfl)⟩
  | @erase c k out hk hp =>
      have hcall : o.calls c = some (ofCall k) := by rw [h.calls, hk, Option.map_some]
      have herased : (ofCall k).erased = false := by rw [ofCall, hp]; rfl
      exact ⟨_, _, .single (.erase hcall herased), h.erase out⟩

/-- **Lookup and push in one step** are among what the two steps do: for every
run of the calls of a connection there is one of this module that shows the
same calls, map and pushes. -/
theorem exists_run_of_calls {as : List Calls.Action} {s : Calls.State}
    (h : Lts.Run Calls.Step Calls.init as s) :
    ∃ bs o, Lts.Run Step init bs o ∧ Shows s o := by
  induction h with
  | nil => exact ⟨[], init, .nil, shows_init⟩
  | snoc _ hstep ih =>
      obtain ⟨bs, o, hrun, hshows⟩ := ih
      have ho : Inv o := hrun.invariant inv_init fun _ _ _ hs hstep => hs.step hstep
      obtain ⟨bs', o', hrun', hshows'⟩ := hshows.step ho hstep
      exact ⟨bs ++ bs', o', hrun.append hrun', hshows'⟩

end

/-! ## runs -/

/-- A response to the first call. -/
def response : Protocol := .createSuccess .kRpcMethodResponse [] 0

theorem exact_of_run_answered :
    ∃ s, Exact s ∧ s.loop ≠ .blocked ∧ s.pushes = [(.call 0, response)] := by
  have h₁ := Lts.Run.single (R := Lts.Restrict Step Timely) (s := init) (a := .begin)
    ⟨trivial, .begin init⟩
  have h₂ := h₁.snoc (a := Action.lookup response) ⟨trivial, .lookup response rfl⟩
  have h₃ := h₂.snoc (a := Action.index) ⟨?_, .index response rfl⟩
  · obtain ⟨hexact, hloop⟩ := exact_of_run h₃
    exact ⟨_, hexact, hloop, rfl⟩
  · rintro msg ⟨⟩
    rfl

/-- The call times out between the lookup of its response and the indexing. -/
theorem not_exact_timeout :
    ∃ as s, Lts.Run Step init as s ∧ ¬ Exact s ∧ s.loop = .blocked ∧
      s.outstanding 0 = some (.made 0) ∧ ∀ c k, ¬ Live s c k := by
  have h₁ := Lts.Run.single (Step.begin init)
  have h₂ := h₁.snoc (.lookup response rfl)
  have h₃ := h₂.snoc (.erase (c := 0) rfl rfl)
  have h₄ := h₃.snoc (.index response rfl)
  have hnone : ∀ c k, ¬ Live ((init.register.lookup response).erase 0 ⟨0, false⟩) c k := by
    intro c k hlive
    obtain ⟨hc, hlive⟩ := (live_erase _).mp hlive
    have hcalls : (init.register.lookup response).calls c = none := update_of_ne hc _ _
    rw [Live, hcalls] at hlive
    cases hlive.1
  refine ⟨_, _, h₄, ?_, rfl, rfl, hnone⟩
  intro hexact
  obtain ⟨c, k, hlive, -⟩ := (hexact 0).mp rfl
  exact hnone c k hlive

end Outstanding
end XzmjxRpc
