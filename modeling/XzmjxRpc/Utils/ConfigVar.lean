import Mathlib.Logic.Function.Basic
import XzmjxRpc.Lib.Run

/-!
# XzmjxRpc.Utils.ConfigVar

`ConfigVar::setValue` (`utils/config.h`) called from many coroutines.

A call compares and notifies the listeners under the read lock, lets go of it,
and assigns under the write lock.  Between the two sections other calls can
pass: they report an old value that is no longer there when they assign, and
the last value announced need not be the last one assigned.  What the
listeners are told is true as long as no call notifies while another one is
between its sections (`faithful_of_run`).

The listeners are taken to be mirrors: each keeps a copy of the variable, made
when it is added and set by every notification.
-/

namespace XzmjxRpc
namespace ConfigVar

open Function

/-- The arguments of a notification. -/
structure Notification (α : Type) where
  old : α
  new : α

structure State (α : Type) where
  /-- `m_val`. -/
  val : α
  /-- `m_listeners`: the ids in it, and the copy that each listener keeps. -/
  listeners : BitVec 64 → Option α
  /-- The calls of `setValue` between their two sections. -/
  pending : List (Notification α)
  /-- The notifications so far, the last one first. -/
  notified : List (Notification α)
  /-- The assignments so far, the last one first: what the call had notified,
  and the value that was replaced. -/
  assigned : List (Notification α × α)

/-- A variable that nobody has set. -/
def init {α : Type} (defaultValue : α) : State α where
  val := defaultValue
  listeners _ := none
  pending := []
  notified := []
  assigned := []

section
variable {α : Type}

/-! ## the locked sections -/

namespace State

/-- The section under the write lock, of a call that leaves the calls `rest`. -/
def assign (s : State α) (n : Notification α) (rest : List (Notification α)) : State α :=
  { s with val := n.new, pending := rest, assigned := (n, s.val) :: s.assigned }

/-- `addListener(cb)`, which takes the id from a counter that other variables
use as well. -/
def addListener (s : State α) (id : BitVec 64) : State α :=
  { s with listeners := update s.listeners id (some s.val) }

/-- `delListener(id)`. -/
def delListener (s : State α) (id : BitVec 64) : State α :=
  { s with listeners := update s.listeners id none }

/-- `clearListener()`. -/
def clearListener (s : State α) : State α := { s with listeners := fun _ => none }

variable [BEq α]

/-- The section under the read lock. -/
def notify (s : State α) (val : α) : State α :=
  if val == s.val then s
  else
    { s with
      listeners := fun id => (s.listeners id).map fun _ => val
      pending := ⟨s.val, val⟩ :: s.pending
      notified := ⟨s.val, val⟩ :: s.notified }

/-- `setValue(val)`, when nothing comes between its sections. -/
def setValue (s : State α) (val : α) : State α :=
  if val == s.val then s else (s.notify val).assign ⟨s.val, val⟩ s.pending

end State

/-- What can happen next. -/
inductive Action (α : Type) where
  | notify (val : α)
  | assign (n : Notification α)
  | addListener (id : BitVec 64)
  | delListener (id : BitVec 64)
  | clearListener

variable [BEq α]

/-- One locked section. -/
inductive Step : State α → Action α → State α → Prop
  | notify (s : State α) (val : α) : Step s (.notify val) (s.notify val)
  | assign {s : State α} {n : Notification α} {l r : List (Notification α)}
      (h : s.pending = l ++ n :: r) : Step s (.assign n) (s.assign n (l ++ r))
  | addListener (s : State α) (id : BitVec 64) : Step s (.addListener id) (s.addListener id)
  | delListener (s : State α) (id : BitVec 64) : Step s (.delListener id) (s.delListener id)
  | clearListener (s : State α) : Step s .clearListener s.clearListener

/-! ## what the listeners are told -/

omit [BEq α] in
/-- What the listeners were told is what happened. -/
structure Faithful (s : State α) : Prop where
  /-- The old value of every notification is the one that its assignment replaced. -/
  old : ∀ a ∈ s.assigned, a.1.old = a.2
  /-- With no call under way, the value is the new value of the last notification. -/
  last : s.pending = [] → ∀ n, s.notified.head? = some n → s.val = n.new
  /-- And every listener's copy is the value. -/
  mirrors : s.pending = [] → ∀ id v, s.listeners id = some v → v = s.val

/-- No call notifies, and no listener is added, while a call is between its sections. -/
def Alone (s : State α) : Action α → Prop
  | .notify val => (val == s.val) = true ∨ s.pending = []
  | .addListener _ => s.pending = []
  | _ => True

/-- At most one call is between its sections.  Without one the copies are the
value; with one they are the value that it is about to assign. -/
inductive Settled (s : State α) : Prop
  | idle (hpending : s.pending = []) (hlast : ∀ n, s.notified.head? = some n → s.val = n.new)
      (hcopies : ∀ id v, s.listeners id = some v → v = s.val)
  | busy (n : Notification α) (hpending : s.pending = [n]) (hold : n.old = s.val)
      (hne : (n.new == n.old) = false) (hlast : s.notified.head? = some n)
      (hcopies : ∀ id v, s.listeners id = some v → v = n.new)

structure Inv (s : State α) : Prop where
  old : ∀ a ∈ s.assigned, a.1.old = a.2
  settled : Settled s

theorem inv_init (defaultValue : α) : Inv (init defaultValue) :=
  ⟨nofun, .idle rfl nofun nofun⟩

theorem Inv.faithful {s : State α} (hs : Inv s) : Faithful s := by
  refine ⟨hs.old, ?_, ?_⟩
  · intro hnil
    cases hs.settled with
    | idle _ hlast _ => exact hlast
    | busy n hpending => cases hnil.symm.trans hpending
  · intro hnil
    cases hs.settled with
    | idle _ _ hcopies => exact hcopies
    | busy n hpending => cases hnil.symm.trans hpending

/-- Copies that are left as they are, or taken away. -/
theorem Settled.of_listeners {s t : State α} (hs : Settled s) (hval : t.val = s.val)
    (hpending : t.pending = s.pending) (hnotified : t.notified = s.notified)
    (hlisteners : ∀ id v, t.listeners id = some v → s.listeners id = some v) : Settled t := by
  cases hs with
  | idle hp hlast hcopies =>
      refine .idle (hpending.trans hp) ?_ ?_
      · rwa [hnotified, hval]
      · intro id v hv
        rw [hval]
        exact hcopies id v (hlisteners id v hv)
  | busy n hp hold hne hlast hcopies =>
      refine .busy n (hpending.trans hp) (hold.trans hval.symm) hne (hnotified ▸ hlast) ?_
      exact fun id v hv => hcopies id v (hlisteners id v hv)

/-- With no other call under way, a notification tells the value that is there,
and all copies become the new one. -/
theorem Inv.notify {s : State α} (hs : Inv s) {val : α}
    (hc : (val == s.val) = true ∨ s.pending = []) : Inv (s.notify val) := by
  by_cases heq : (val == s.val) = true
  · rwa [State.notify, if_pos heq]
  · rw [State.notify, if_neg heq]
    have hnil := hc.resolve_left heq
    refine ⟨hs.old, .busy ⟨s.val, val⟩ ?_ rfl ((Bool.not_eq_true _).mp heq) rfl ?_⟩
    · exact congrArg _ hnil
    · intro id v hv
      obtain ⟨-, -, rfl⟩ := Option.map_eq_some_iff.mp hv
      rfl

/-- The call that assigns is the only one, so it replaces what it reported. -/
theorem Inv.assign {s : State α} (hs : Inv s) {n : Notification α} {l r : List (Notification α)}
    (h : s.pending = l ++ n :: r) : Inv (s.assign n (l ++ r)) := by
  cases hs.settled with
  | idle hpending => simp [hpending] at h
  | busy n' hpending hold hne hlast hcopies =>
      rw [hpending, List.singleton_eq_append_iff] at h
      obtain ⟨rfl, hn⟩ | ⟨-, hn⟩ := h
      · cases hn
        refine ⟨List.forall_mem_cons.mpr ⟨hold, hs.old⟩, .idle rfl ?_ hcopies⟩
        intro m hm
        cases hlast.symm.trans hm
        rfl
      · cases hn

theorem Inv.step {s t : State α} {a : Action α} (hs : Inv s)
    (h : Lts.Restrict Step Alone s a t) : Inv t := by
  obtain ⟨hc, hstep⟩ := h
  cases hstep with
  | notify val => exact hs.notify hc
  | assign hp => exact hs.assign hp
  | addListener id =>
      refine ⟨hs.old, ?_⟩
      cases hs.settled with
      | busy n hpending => cases (show s.pending = [] from hc).symm.trans hpending
      | idle hpending hlast hcopies =>
          refine .idle hpending hlast ?_
          intro id' v hv
          simp only [State.addListener, update_apply] at hv
          split at hv
          · exact (Option.some.inj hv).symm
          · exact hcopies id' v hv
  | delListener id =>
      refine ⟨hs.old, hs.settled.of_listeners rfl rfl rfl ?_⟩
      intro id' v hv
      simp only [State.delListener, update_apply] at hv
      split at hv
      · cases hv
      · exact hv
  | clearListener => exact ⟨hs.old, hs.settled.of_listeners rfl rfl rfl nofun⟩

/-- **Notifications**: in every run in which no call notifies, and no listener
is added, while another call is between its sections, every assignment
replaces the value that its call reported as the old one, and with no call
under way the value is the one announced last and the one all listeners have. -/
theorem faithful_of_run {defaultValue : α} {as : List (Action α)} {s : State α}
    (h : Lts.Run (Lts.Restrict Step Alone) (init defaultValue) as s) : Faithful s :=
  have hs : Inv s := h.invariant (inv_init defaultValue) fun _ _ _ hs hstep => hs.step hstep
  hs.faithful

/-- Calls one after the other are such runs. -/
theorem run_setValue {s : State α} (hs : s.pending = []) (val : α) :
    ∃ as, Lts.Run (Lts.Restrict Step Alone) s as (s.setValue val) := by
  unfold State.setValue
  split
  · exact ⟨[], .nil⟩
  · next hne =>
    have hnotify : Lts.Restrict Step Alone s (.notify val) (s.notify val) :=
      ⟨.inr hs, .notify s val⟩
    have hpending : (s.notify val).pending = [] ++ ⟨s.val, val⟩ :: s.pending := by
      rw [State.notify, if_neg hne]
      rfl
    have hassign : Lts.Restrict Step Alone (s.notify val) (.assign ⟨s.val, val⟩)
        ((s.notify val).assign ⟨s.val, val⟩ s.pending) := ⟨trivial, .assign hpending⟩
    exact ⟨_, (Lts.Run.single hnotify).snoc hassign⟩

/-- The condition is needed: from a step that does not meet it, the calls that
are under way can finish so that a listener was told something else. -/
theorem not_faithful_of_not_alone [ReflBEq α] {s t : State α} {a : Action α} (hs : Inv s)
    (h : Step s a t) (hc : ¬ Alone s a) : ∃ as u, Lts.Run Step t as u ∧ ¬ Faithful u := by
  cases h with
  | assign => exact absurd trivial hc
  | delListener => exact absurd trivial hc
  | clearListener => exact absurd trivial hc
  | notify val =>
      obtain ⟨hne, hpending⟩ := not_or.mp hc
      cases hs.settled with
      | idle hnil => exact absurd hnil hpending
      | busy n hn hold =>
          -- the second call assigns first, and the first one replaces its value
          have hp : (s.notify val).pending = [] ++ ⟨s.val, val⟩ :: [n] := by
            rw [State.notify, if_neg hne, hn]
            rfl
          have h₁ := Lts.Run.single (Step.assign hp)
          have h₂ := h₁.snoc (.assign (n := n) (l := []) (r := []) rfl)
          refine ⟨_, _, h₂, fun hf => ?_⟩
          have heq : n.old = val := hf.old _ List.mem_cons_self
          exact hne (by rw [← heq, hold]; exact BEq.rfl)
  | addListener id =>
      cases hs.settled with
      | idle hnil => exact absurd hnil hc
      | busy n hn hold hne =>
          have hp : (s.addListener id).pending = [] ++ n :: [] := hn
          refine ⟨_, _, .single (Step.assign hp), fun hf => ?_⟩
          have heq : s.val = n.new := hf.mirrors rfl id s.val (update_self ..)
          rw [← heq, hold, BEq.rfl] at hne
          cases hne

end

/-! ## runs -/

/-- A listener, and a call that sets 0 to 1. -/
theorem faithful_of_run_once :
    ∃ s : State Nat, Faithful s ∧ s.val = 1 ∧ s.listeners 1 = some 1 := by
  have h₁ := Lts.Run.single (R := Lts.Restrict Step Alone) (s := init 0)
    (a := Action.addListener 1) ⟨rfl, .addListener _ 1⟩
  have h₂ := h₁.snoc (a := Action.notify 1) ⟨.inr rfl, .notify _ 1⟩
  have h₃ := h₂.snoc (a := Action.assign ⟨0, 1⟩) ⟨trivial, .assign (l := []) (r := []) rfl⟩
  exact ⟨_, faithful_of_run h₃, rfl, rfl⟩

/-- Two calls notify, of 1 and then of 2, and then assign the other way round. -/
theorem not_faithful_overtaken :
    ∃ (as : List (Action Nat)) (s : State Nat), Lts.Run Step (init 0) as s ∧ ¬ Faithful s ∧
      s.pending = [] ∧ s.val = 1 ∧ s.notified.head? = some ⟨0, 2⟩ ∧ s.listeners 1 = some 2 ∧
      s.assigned = [(⟨0, 1⟩, 2), (⟨0, 2⟩, 0)] := by
  have h₁ := Lts.Run.single (Step.addListener (init 0) 1)
  have h₂ := h₁.snoc (.notify _ 1)
  have h₃ := h₂.snoc (.notify _ 2)
  have h₄ := h₃.snoc (.assign (n := ⟨0, 2⟩) (l := []) (r := [⟨0, 1⟩]) rfl)
  have h₅ := h₄.snoc (.assign (n := ⟨0, 1⟩) (l := []) (r := []) rfl)
  refine ⟨_, _, h₅, ?_, rfl, rfl, rfl, rfl, rfl⟩
  intro hf
  exact absurd (hf.old _ List.mem_cons_self) (by decide)

end ConfigVar
end XzmjxRpc
