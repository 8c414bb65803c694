import Mathlib.Logic.Function.Basic
import XzmjxRpc.Lib.Run
import XzmjxRpc.Utils.Codec

/-!
# XzmjxRpc.Utils.Config.Lookup

`Config::Lookup` (`utils/config.h`) called from many coroutines.

The call that may register a variable looks its name up under the read lock,
lets go of it to check the name, and looks the name up again under the write
lock before it inserts.  The second look is what keeps the registry in order:
whatever the interleaving, every answer a call has ever got is the one that the
registry gives now (`lookups_agree`).

The value types are a parameter `τ` with the values `V t` of each; a pointer to
a variable is its number in the order of creation.
-/

namespace XzmjxRpc
namespace ConfigLookup

open Function

/-! ## names -/

/-- The characters of a valid name. -/
def nameChars : Bytes :=
  "abcdefghijklmnopqrstuvwxyz._1234567890".toList.map fun c => BitVec.ofNat 8 c.toNat

/-- `name.find_first_not_of(…) == std::string::npos`. -/
def validName (name : Bytes) : Bool := name.all fun c => nameChars.contains c

/-- `::tolower`. -/
def toLower (c : Byte) : Byte := if 65 ≤ c ∧ c ≤ 90 then c + 32 else c

theorem toLower_nameChars : ∀ c ∈ nameChars, toLower c = c := by
  have hall : nameChars.all (fun c => toLower c = c) := by decide
  intro c hc
  exact of_decide_eq_true (List.all_eq_true.mp hall c hc)

/-- The constructor's `transform` does nothing to a valid name. -/
theorem map_toLower {name : Bytes} (h : validName name = true) : name.map toLower = name := by
  have hall : ∀ c ∈ name, toLower c = c := by
    intro c hc
    have hmem := List.all_eq_true.mp h c hc
    exact toLower_nameChars c (List.contains_iff_mem.mp hmem)
  rw [List.map_congr_left hall, List.map_id']

/-! ## the state -/

variable {τ : Type} {V : τ → Type}

/-- The arguments of `Lookup<T>(name, defaultVal, description)`. -/
structure Request (V : τ → Type) where
  name : Bytes
  type : τ
  defaultVal : V type
  description : Bytes

/-- A `ConfigVar<T>`, as it is made. -/
structure Var (V : τ → Type) where
  name : Bytes
  type : τ
  val : V type
  description : Bytes

/-- `make_shared<ConfigVar<T>>(name, defaultVal, description)`. -/
def Request.make (r : Request V) : Var V :=
  ⟨r.name.map toLower, r.type, r.defaultVal, r.description⟩

/-- How a call ends. -/
inductive Result where
  | var (p : Nat)
  | null
  /-- `throw std::invalid_argument(name)`. -/
  | invalid
  deriving DecidableEq

/-- What a call asked for and what it got. -/
structure Answer (τ : Type) where
  name : Bytes
  type : τ
  result : Result

structure State (V : τ → Type) where
  /-- `GetConfigMap()`. -/
  map : Bytes → Option Nat
  /-- The variables made so far. -/
  heap : List (Var V)
  /-- The calls between their two sections. -/
  calls : Nat → Option (Request V)
  /-- What the calls that may register have returned. -/
  answers : List (Answer τ)
  /-- What the calls without a default value have returned. -/
  existing : List (Answer τ)

/-- Nothing is registered. -/
def init : State V := ⟨fun _ => none, [], fun _ => none, [], []⟩

/-! ## the locked sections -/

namespace State

section
variable [DecidableEq τ]

/-- `dynamic_pointer_cast<ConfigVar<T>>(p)`. -/
def cast (s : State V) (p : Nat) (type : τ) : Result :=
  if (s.heap[p]?).map Var.type = some type then .var p else .null

/-- A call returns. -/
def answer (s : State V) (name : Bytes) (type : τ) (result : Result) : State V :=
  { s with answers := ⟨name, type, result⟩ :: s.answers }

/-- The section under the read lock, and the check of the name after it. -/
def lookupReading (s : State V) (c : Nat) (r : Request V) : State V :=
  match s.map r.name with
  | some p => s.answer r.name r.type (s.cast p r.type)
  | none =>
      if validName r.name then { s with calls := update s.calls c (some r) }
      else s.answer r.name r.type .invalid

/-- The second look at the name, and the insertion when it is not there. -/
def lookupOrInsert (s : State V) (r : Request V) : State V :=
  match s.map r.name with
  | some p => s.answer r.name r.type (s.cast p r.type)
  | none =>
      let s' := { s with
        map := update s.map r.name (some s.heap.length)
        heap := s.heap ++ [r.make] }
      s'.answer r.name r.type (.var s.heap.length)

/-- The section under the write lock. -/
def lookupWriting (s : State V) (c : Nat) (r : Request V) : State V :=
  State.lookupOrInsert { s with calls := update s.calls c none } r

/-- `Lookup<T>(name)`. -/
def lookupExisting (s : State V) (name : Bytes) (type : τ) : State V :=
  let result := match s.map name with
    | some p => s.cast p type
    | none => .null
  { s with existing := ⟨name, type, result⟩ :: s.existing }

end

end State

/-- What can happen next. -/
inductive Action (V : τ → Type) where
  | lookupReading (c : Nat) (r : Request V)
  | lookupWriting (c : Nat)
  | lookupExisting (name : Bytes) (type : τ)

/-- Nothing registered or made is lost. -/
structure Grows (s t : State V) : Prop where
  map : ∀ name p, s.map name = some p → t.map name = some p
  heap : s.heap <+: t.heap

theorem Grows.refl (s : State V) : Grows s s := ⟨fun _ _ h => h, List.prefix_refl _⟩

theorem Grows.trans {s t u : State V} (h : Grows s t) (h' : Grows t u) : Grows s u :=
  ⟨fun name p hp => h'.map name p (h.map name p hp), h.heap.trans h'.heap⟩

theorem grows_answer (s : State V) (name : Bytes) (type : τ) (result : Result) :
    Grows s (s.answer name type result) := ⟨fun _ _ hp => hp, List.prefix_refl _⟩

variable [DecidableEq τ]

/-- One locked section. -/
inductive Step : State V → Action V → State V → Prop
  | lookupReading {s : State V} {c : Nat} (r : Request V) (h : s.calls c = none) :
      Step s (.lookupReading c r) (s.lookupReading c r)
  | lookupWriting {s : State V} {c : Nat} {r : Request V} (h : s.calls c = some r) :
      Step s (.lookupWriting c) (s.lookupWriting c r)
  | lookupExisting (s : State V) (name : Bytes) (type : τ) :
      Step s (.lookupExisting name type) (s.lookupExisting name type)

/-- A state some run leads to. -/
def Reachable (s : State V) : Prop := ∃ as, Lts.Run Step init as s

/-! ## what holds -/

/-- The answer that the registry gives now. -/
def State.answerFor (s : State V) (name : Bytes) (type : τ) : Result :=
  match s.map name with
  | some p => s.cast p type
  | none => .invalid

structure Inv (s : State V) : Prop where
  /-- A registered name is valid and is the name of its variable. -/
  registered : ∀ name p, s.map name = some p →
    ∃ v, s.heap[p]? = some v ∧ v.name = name ∧ validName name = true
  /-- Every variable ever made is the one registered under its name. -/
  made : ∀ p v, s.heap[p]? = some v → s.map v.name = some p
  pending : ∀ c r, s.calls c = some r → validName r.name = true
  answered : ∀ a ∈ s.answers, a.result = s.answerFor a.name a.type ∧
    (a.result = .invalid ↔ validName a.name = false)
  existing : ∀ a ∈ s.existing, ∀ p, a.result = .var p → s.answerFor a.name a.type = .var p

section
variable {s t : State V}

/-- The answer is right, and it is the exception exactly for a bad name. -/
def Right (s : State V) (a : Answer τ) : Prop :=
  a.result = s.answerFor a.name a.type ∧ (a.result = .invalid ↔ validName a.name = false)

theorem cast_ne_invalid (s : State V) (p : Nat) (type : τ) : s.cast p type ≠ .invalid := by
  unfold State.cast
  split <;> exact fun h => nomatch h

theorem answerFor_of_some {name : Bytes} {p : Nat} (h : s.map name = some p) (type : τ) :
    s.answerFor name type = s.cast p type := by
  rw [State.answerFor, h]

theorem answerFor_of_none {name : Bytes} (h : s.map name = none) (type : τ) :
    s.answerFor name type = .invalid := by
  rw [State.answerFor, h]

namespace Inv

/-- What the registry says of a registered name, it goes on to say. -/
theorem answerFor_grows (h : Inv s) (hg : Grows s t) {name : Bytes} {p : Nat}
    (hp : s.map name = some p) (type : τ) : t.answerFor name type = s.answerFor name type := by
  obtain ⟨v, hv, -⟩ := h.registered name p hp
  obtain ⟨l, hl⟩ := hg.heap
  have hlt : p < s.heap.length := (List.getElem?_eq_some_iff.mp hv).1
  rw [answerFor_of_some hp, answerFor_of_some (hg.map name p hp), State.cast, State.cast, ← hl,
    List.getElem?_append_left hlt]

/-- What a section has to keep beside growing. -/
theorem of_grows (h : Inv s) (hg : Grows s t)
    (hreg : ∀ name p, t.map name = some p →
      ∃ v, t.heap[p]? = some v ∧ v.name = name ∧ validName name = true)
    (hmade : ∀ p v, t.heap[p]? = some v → t.map v.name = some p)
    (hpend : ∀ c r, t.calls c = some r → validName r.name = true)
    (hans : ∀ a ∈ t.answers, a ∈ s.answers ∨ Right t a)
    (hex : ∀ a ∈ t.existing, a ∈ s.existing ∨
      ∀ p, a.result = .var p → t.answerFor a.name a.type = .var p) : Inv t where
  registered := hreg
  made := hmade
  pending := hpend
  answered a ha := by
    rcases hans a ha with hold | hnew
    · obtain ⟨hres, hbad⟩ := h.answered a hold
      refine ⟨?_, hbad⟩
      cases hmap : s.map a.name with
      | some p => rw [hres, h.answerFor_grows hg hmap]
      | none =>
          have hinv : a.result = .invalid := by rw [hres, answerFor_of_none hmap]
          cases hmap' : t.map a.name with
          | none => rw [hinv, answerFor_of_none hmap']
          | some q =>
              obtain ⟨v, -, -, hvalid⟩ := hreg a.name q hmap'
              rw [hbad.mp hinv] at hvalid
              cases hvalid
    · exact hnew
  existing a ha p hres := by
    rcases hex a ha with hold | hnew
    · have hfor := h.existing a hold p hres
      cases hmap : s.map a.name with
      | some q => rw [h.answerFor_grows hg hmap, hfor]
      | none =>
          rw [answerFor_of_none hmap] at hfor
          cases hfor
    · exact hnew p hres

/-- A call that returns the right answer changes nothing else. -/
theorem answer (h : Inv s) {name : Bytes} {type : τ} {result : Result}
    (hright : Right s ⟨name, type, result⟩) : Inv (s.answer name type result) := by
  have hg := grows_answer s name type result
  refine h.of_grows hg h.registered h.made h.pending (fun a ha => ?_) fun a ha => .inl ha
  rcases List.mem_cons.mp ha with rfl | hold
  · exact .inr hright
  · exact .inl hold

/-- The cast of what is registered is the right answer. -/
theorem right_cast (h : Inv s) {name : Bytes} {p : Nat} (hp : s.map name = some p) (type : τ) :
    Right s ⟨name, type, s.cast p type⟩ := by
  obtain ⟨v, -, -, hvalid⟩ := h.registered name p hp
  refine ⟨(answerFor_of_some hp type).symm, iff_of_false (cast_ne_invalid s p type) ?_⟩
  rw [hvalid]
  exact fun hc => nomatch hc

/-- The calls between their sections, and nothing else, change. -/
theorem setCall (h : Inv s) (c : Nat) (r : Option (Request V))
    (hr : ∀ q, r = some q → validName q.name = true) :
    Inv { s with calls := update s.calls c r } := by
  have hg : Grows s { s with calls := update s.calls c r } :=
    ⟨fun _ _ hp => hp, List.prefix_refl _⟩
  refine h.of_grows hg h.registered h.made (fun c' q hq => ?_) (fun a ha => .inl ha)
    fun a ha => .inl ha
  simp only [update_apply] at hq
  split at hq
  · exact hr q hq
  · exact h.pending c' q hq

/-- A variable is made for a valid name that is not registered. -/
theorem register (h : Inv s) {r : Request V} (hvalid : validName r.name = true)
    (hnone : s.map r.name = none) :
    Grows s { s with map := update s.map r.name (some s.heap.length), heap := s.heap ++ [r.make] } ∧
    Inv { s with map := update s.map r.name (some s.heap.length), heap := s.heap ++ [r.make] } := by
  have hname : r.make.name = r.name := map_toLower hvalid
  have hne (name : Bytes) (p : Nat) (hp : s.map name = some p) : name ≠ r.name := by
    rintro rfl
    rw [hnone] at hp
    cases hp
  have hg : Grows s { s with
      map := update s.map r.name (some s.heap.length), heap := s.heap ++ [r.make] } :=
    ⟨fun name p hp => (update_of_ne (hne name p hp) _ _).trans hp, List.prefix_append _ _⟩
  refine ⟨hg, h.of_grows hg (fun name p hp => ?_) (fun p v hv => ?_) h.pending
    (fun a ha => .inl ha) fun a ha => .inl ha⟩
  · simp only [update_apply] at hp
    split at hp
    · next heq =>
        cases hp
        exact ⟨r.make, by simp, by rw [hname, heq], by rw [heq, hvalid]⟩
    · obtain ⟨v, hv, hrest⟩ := h.registered name p hp
      have hlt : p < s.heap.length := (List.getElem?_eq_some_iff.mp hv).1
      exact ⟨v, by rw [List.getElem?_append_left hlt, hv], hrest⟩
  · by_cases hlt : p < s.heap.length
    · rw [List.getElem?_append_left hlt] at hv
      have hmap := h.made p v hv
      exact (update_of_ne (hne v.name p hmap) _ _).trans hmap
    · have hp : p = s.heap.length := by
        have := (List.getElem?_eq_some_iff.mp hv).1
        rw [List.length_append, List.length_singleton] at this
        omega
      subst hp
      rw [List.getElem?_concat_length] at hv
      cases hv
      simp only [hname, update_self]

/-- The section under the write lock, once the call has left `calls`. -/
theorem lookupOrInsert (h : Inv s) {r : Request V} (hvalid : validName r.name = true) :
    Inv (s.lookupOrInsert r) ∧ Grows s (s.lookupOrInsert r) := by
  unfold State.lookupOrInsert
  split
  · next p hp => exact ⟨h.answer (h.right_cast hp r.type), grows_answer ..⟩
  · next hnone =>
      -- the name is still free: the variable is made and is the answer
      obtain ⟨hmake, hinv⟩ := h.register hvalid hnone
      refine ⟨hinv.answer ⟨?_, iff_of_false (fun hc => nomatch hc) (by simp [hvalid])⟩,
        hmake.trans (grows_answer ..)⟩
      rw [answerFor_of_some (update_self ..), State.cast, List.getElem?_concat_length]
      exact (if_pos rfl).symm

end Inv

theorem init_inv : Inv (init : State V) where
  registered _ _ hp := nomatch hp
  made _ _ hv := nomatch hv
  pending _ _ hr := nomatch hr
  answered _ ha := nomatch ha
  existing _ ha := nomatch ha

/-- **One section** keeps the registry in order and loses nothing. -/
theorem step_inv {a : Action V} (h : Inv s) (hs : Step s a t) : Inv t ∧ Grows s t := by
  cases hs with
  | lookupReading r hc =>
      unfold State.lookupReading
      split
      · next p hp => exact ⟨h.answer (h.right_cast hp r.type), grows_answer ..⟩
      · next hnone =>
          split
          · next hvalid =>
              refine ⟨h.setCall _ (some r) fun q hq => ?_, ⟨fun _ _ hp => hp, List.prefix_refl _⟩⟩
              cases hq
              exact hvalid
          · next hbad =>
              have hname : validName r.name = false := Bool.eq_false_iff.mpr hbad
              exact ⟨h.answer ⟨(answerFor_of_none hnone r.type).symm, iff_of_true rfl hname⟩,
                grows_answer ..⟩
  | @lookupWriting c r hc =>
      have h' := h.setCall c none fun q hq => nomatch hq
      obtain ⟨hinv, hg⟩ := h'.lookupOrInsert (h.pending c r hc)
      exact ⟨hinv, ⟨hg.map, hg.heap⟩⟩
  | lookupExisting name type =>
      have hg : Grows s (s.lookupExisting name type) := ⟨fun _ _ hp => hp, List.prefix_refl _⟩
      refine ⟨h.of_grows hg h.registered h.made h.pending (fun a ha => .inl ha) fun a ha => ?_, hg⟩
      rcases List.mem_cons.mp ha with rfl | hold
      · refine .inr fun p hp => ?_
        cases hmap : s.map name with
        | none =>
            simp only [hmap] at hp
            cases hp
        | some q =>
            simp only [hmap] at hp
            rw [answerFor_of_some (s := s.lookupExisting name type) hmap]
            exact hp
      · exact .inl hold

theorem Reachable.inv (h : Reachable s) : Inv s := by
  obtain ⟨as, hrun⟩ := h
  exact hrun.invariant init_inv fun _ _ _ hi hs => (step_inv hi hs).1

/-- A run loses nothing. -/
theorem Inv.run {as : List (Action V)} (h : Inv s) (hrun : Lts.Run Step s as t) :
    Inv t ∧ Grows s t :=
  hrun.invariant (I := fun t => Inv t ∧ Grows s t) ⟨h, Grows.refl s⟩ fun _ _ _ hi hs =>
    ⟨(step_inv hi.1 hs).1, hi.2.trans (step_inv hi.1 hs).2⟩

/-- The variables have different names. -/
theorem Inv.nodup (h : Inv s) : (s.heap.map Var.name).Nodup := by
  rw [List.nodup_iff_getElem?_ne_getElem?]
  intro i j hij hj heq
  rw [List.length_map] at hj
  rw [List.getElem?_map, List.getElem?_map, List.getElem?_eq_getElem hj,
    List.getElem?_eq_getElem (hij.trans hj), Option.map_some, Option.map_some,
    Option.some.injEq] at heq
  have hi := h.made i _ (List.getElem?_eq_getElem (hij.trans hj))
  have hj := h.made j _ (List.getElem?_eq_getElem hj)
  rw [heq, hj] at hi
  cases hi
  exact Nat.lt_irrefl _ hij

/-- **Concurrent lookups agree**: in every state that any number of calls lead
to, no two variables have the same name; no later state loses or replaces a
variable; a registered name is that of its variable and valid; and every call
that has returned got the answer the registry gives in this state — the
variable registered under its name if its type is the requested one, null if
it is another, and the exception exactly for a name that cannot be registered. -/
theorem lookups_agree (h : Reachable s) :
    (s.heap.map Var.name).Nodup ∧
    (∀ as t, Lts.Run Step s as t → Grows s t) ∧
    (∀ name p, s.map name = some p →
      ∃ v, s.heap[p]? = some v ∧ v.name = name ∧ validName name = true) ∧
    (∀ a ∈ s.answers, a.result = s.answerFor a.name a.type ∧
      (a.result = .invalid ↔ validName a.name = false)) ∧
    ∀ a ∈ s.existing, ∀ p, a.result = .var p → s.answerFor a.name a.type = .var p :=
  ⟨h.inv.nodup, fun _ _ hrun => (h.inv.run hrun).2, h.inv.registered, h.inv.answered,
    h.inv.existing⟩

end

/-- Two calls for the name `a` get past the first section together; the one
that writes second is for another type. -/
theorem lookups_agree_overtaken : ∃ s : State fun _ : Bool => Nat, Reachable s ∧
    s.answers.map Answer.result = [.null, .var 0] ∧ (s.heap.map Var.name).Nodup := by
  let r (type : Bool) : Request fun _ : Bool => Nat := ⟨[97], type, 7, []⟩
  have hrun : Lts.Run Step init
      ([.lookupReading 0 (r true)] ++ [.lookupReading 1 (r false)] ++ [.lookupWriting 0] ++
        [.lookupWriting 1])
      ((((init.lookupReading 0 (r true)).lookupReading 1 (r false)).lookupWriting 0
        (r true)).lookupWriting 1 (r false)) :=
    .snoc (.snoc (.snoc (.single (.lookupReading _ rfl)) (.lookupReading _ rfl))
      (.lookupWriting rfl)) (.lookupWriting rfl)
  exact ⟨_, ⟨_, hrun⟩, by decide, (lookups_agree ⟨_, hrun⟩).1⟩

end ConfigLookup
end XzmjxRpc
