import XzmjxRpc.Utils.Config
import XzmjxRpc.Utils.Config.Lookup
import XzmjxRpc.Utils.ConfigVar

/-!
# XzmjxRpc.Utils.Config.Store

The configuration of a process (`utils/config.h`, `utils/config.cpp`): the
registry of `Config::Lookup`, the variables in it, and any number of documents
being loaded, in every interleaving.

`LoadFromYaml` lists the nodes of its document and then visits them one by one,
with a look at the registry for each: between two nodes other coroutines can
register variables, set them and load documents of their own.  A call of
`setValue` is taken in one piece; what overlapping calls do to a variable is in
`XzmjxRpc.Utils.ConfigVar`.

* `value_of_run` — a variable has its default value from when it is made,
  and then what it is set to and loaded with, in this order, and nothing else;
  a listener that keeps a copy of it has this value;
* `loaded_of_run` — what a whole document makes of a variable.

The conversion from text is a parameter (`fromStr`, `none` for an exception),
and so is the printing of a node.
-/

namespace XzmjxRpc
namespace ConfigStore

open Function Config

variable {τ : Type} {V : τ → Type}

/-! ## the state -/

/-- A `ConfigVar<T>` as a `ConfigBase`. -/
abbrev AnyVar (V : τ → Type) := (t : τ) × ConfigVar.State (V t)

structure State (V : τ → Type) where
  registry : ConfigLookup.State V
  /-- The variables, as `registry.heap` numbers them. -/
  vars : List (AnyVar V)
  /-- `s_listener_id`, of which every type has its own. -/
  listenerId : τ → BitVec 64
  /-- The nodes that a call of `LoadFromYaml` has still to visit. -/
  loads : Nat → Option (List (Bytes × Yaml))

/-- Nothing is registered. -/
def init : State V := ⟨ConfigLookup.init, [], fun _ => 0, fun _ => none⟩

namespace AnyVar

/-- `make_shared<ConfigVar<T>>`. -/
def make (v : ConfigLookup.Var V) : AnyVar V := ⟨v.type, ConfigVar.init v.val⟩

/-- A member function of `ConfigVar<T>`, through a pointer of that type. -/
def through [DecidableEq τ] (t : τ) (f : ConfigVar.State (V t) → ConfigVar.State (V t))
    (x : AnyVar V) : AnyVar V :=
  if h : x.1 = t then ⟨t, f (h ▸ x.2)⟩ else x

/-- `fromString(f)`, which catches the exceptions of the conversion. -/
def fromString [∀ t, BEq (V t)] (fromStr : (t : τ) → Bytes → Option (V t)) (text : Bytes)
    (x : AnyVar V) : AnyVar V :=
  match fromStr x.1 text with
  | some val => ⟨x.1, x.2.setValue val⟩
  | none => x

end AnyVar

/-! ## the operations -/

namespace State

/-- A section of `Lookup`, with the variable that it makes if it makes one. -/
def lookup (s : State V) (registry : ConfigLookup.State V) : State V :=
  { s with
    registry := registry
    vars := s.vars ++ (registry.heap.drop s.vars.length).map AnyVar.make }

/-- A call of a variable's member function. -/
def call (s : State V) (p : Nat) (f : AnyVar V → AnyVar V) : State V :=
  { s with vars := s.vars.modify p f }

/-- `LoadFromYaml(rootNode)`, up to its loop. -/
def load (s : State V) (d : Nat) (rootNode : Yaml) : State V :=
  { s with loads := update s.loads d (some (listAllNodes [] rootNode)) }

/-- One round of the loop. -/
def visit [∀ t, BEq (V t)] (print : Yaml → Bytes) (fromStr : (t : τ) → Bytes → Option (V t))
    (s : State V) (key : Bytes) (node : Yaml) : State V :=
  if key = [] then s
  else
    match s.registry.map key with
    | some p => s.call p (AnyVar.fromString fromStr (nodeText print node))
    | none => s

section
variable [DecidableEq τ]

/-- `addListener(cb)`. -/
def addListener (s : State V) (p : Nat) (t : τ) : State V :=
  let id := s.listenerId t + 1
  { s.call p (AnyVar.through t (·.addListener id)) with listenerId := update s.listenerId t id }

end

end State

/-- What can happen next. -/
inductive Action (V : τ → Type) where
  | lookup (a : ConfigLookup.Action V)
  | setValue (p : Nat) (t : τ) (val : V t)
  | addListener (p : Nat) (t : τ)
  | delListener (p : Nat) (t : τ) (id : BitVec 64)
  | clearListener (p : Nat) (t : τ)
  | load (d : Nat) (rootNode : Yaml)
  | visit (d : Nat) (key : Bytes) (node : Yaml)
  /-- A load returns. -/
  | loaded (d : Nat)

section
variable [DecidableEq τ] [∀ t, BEq (V t)]
variable (print : Yaml → Bytes) (fromStr : (t : τ) → Bytes → Option (V t))

/-- One section of `Lookup`, one call on a variable, or one round of a load.
The pointers `p` of type `t` are those that `Lookup<T>` gives. -/
inductive Step : State V → Action V → State V → Prop
  | lookup {s : State V} {a : ConfigLookup.Action V} {registry : ConfigLookup.State V}
      (h : ConfigLookup.Step s.registry a registry) :
      Step s (.lookup a) (s.lookup registry)
  | setValue {s : State V} {p : Nat} {t : τ} (val : V t) (h : s.registry.cast p t = .var p) :
      Step s (.setValue p t val) (s.call p (AnyVar.through t (·.setValue val)))
  | addListener {s : State V} {p : Nat} {t : τ} (h : s.registry.cast p t = .var p) :
      Step s (.addListener p t) (s.addListener p t)
  | delListener {s : State V} {p : Nat} {t : τ} (id : BitVec 64)
      (h : s.registry.cast p t = .var p) :
      Step s (.delListener p t id) (s.call p (AnyVar.through t (·.delListener id)))
  | clearListener {s : State V} {p : Nat} {t : τ} (h : s.registry.cast p t = .var p) :
      Step s (.clearListener p t) (s.call p (AnyVar.through t (·.clearListener)))
  | load {s : State V} {d : Nat} (rootNode : Yaml) (h : s.loads d = none) :
      Step s (.load d rootNode) (s.load d rootNode)
  | visit {s : State V} {d : Nat} {key : Bytes} {node : Yaml} {rest : List (Bytes × Yaml)}
      (h : s.loads d = some ((key, node) :: rest)) :
      Step s (.visit d key node)
        { s.visit print fromStr key node with loads := update s.loads d (some rest) }
  | loaded {s : State V} {d : Nat} (h : s.loads d = some []) :
      Step s (.loaded d) { s with loads := update s.loads d none }

/-! ## what a variable is worth -/

/-- The variable `p` is registered as `name` and has this value, and so has each
listener's copy, made when it was added and set by every call of the listener. -/
structure State.Worth (s : State V) (p : Nat) (name : Bytes) {t : τ} (val : V t) : Prop where
  registered : s.registry.map name = some p
  var : ∃ x : ConfigVar.State (V t), s.vars[p]? = some ⟨t, x⟩ ∧ x.val = val ∧
    ∀ id copy, x.listeners id = some copy → copy = val

/-- The value that an action gives the variable `p` of this name and type. -/
def written (p : Nat) (name : Bytes) (t : τ) : Action V → Option (V t)
  | .setValue q t' val => if h : q = p ∧ t' = t then some (h.2 ▸ val) else none
  | .visit _ key node =>
      if key ≠ [] ∧ key = name then fromStr t (nodeText print node) else none
  | _ => none

/-- What `==` does not tell from the value is not assigned. -/
def replace {α : Type} [BEq α] (old new : α) : α := if new == old then old else new

end

/-! ## a variable by itself -/

/-- No call of `setValue` is under way. -/
structure Idle {α : Type} [BEq α] (x : ConfigVar.State α) : Prop where
  pending : x.pending = []
  inv : ConfigVar.Inv x

section
variable {α : Type} [BEq α] {x : ConfigVar.State α}

/-- All copies are the value. -/
theorem Idle.mirrored (hx : Idle x) (id : BitVec 64) (copy : α) (h : x.listeners id = some copy) :
    copy = x.val :=
  hx.inv.faithful.mirrors hx.pending id copy h

theorem idle_init (defaultVal : α) : Idle (ConfigVar.init defaultVal) :=
  ⟨rfl, ConfigVar.inv_init defaultVal⟩

theorem Idle.setValue (hx : Idle x) (val : α) : Idle (x.setValue val) := by
  obtain ⟨as, hrun⟩ := ConfigVar.run_setValue hx.pending val
  refine ⟨?_, hrun.invariant hx.inv fun _ _ _ hi hstep => hi.step hstep⟩
  unfold ConfigVar.State.setValue
  split
  · exact hx.pending
  · exact hx.pending

theorem Idle.addListener (hx : Idle x) (id : BitVec 64) : Idle (x.addListener id) :=
  ⟨hx.pending, hx.inv.step (a := .addListener id) ⟨hx.pending, .addListener x id⟩⟩

theorem Idle.delListener (hx : Idle x) (id : BitVec 64) : Idle (x.delListener id) :=
  ⟨hx.pending, hx.inv.step (a := .delListener id) ⟨trivial, .delListener x id⟩⟩

theorem Idle.clearListener (hx : Idle x) : Idle x.clearListener :=
  ⟨hx.pending, hx.inv.step (a := .clearListener) ⟨trivial, .clearListener x⟩⟩

theorem val_setValue (x : ConfigVar.State α) (val : α) :
    (x.setValue val).val = replace x.val val := by
  unfold ConfigVar.State.setValue replace
  split <;> rfl

end

/-! ## a variable of any type -/

section
variable [∀ t, BEq (V t)]

/-- A member function keeps the type, and leaves no call under way. -/
def Keeps (f : AnyVar V → AnyVar V) : Prop :=
  ∀ x, Idle x.2 → (f x).1 = x.1 ∧ Idle (f x).2

omit [∀ t, BEq (V t)] in
theorem through_self [DecidableEq τ] {t : τ} (f : ConfigVar.State (V t) → ConfigVar.State (V t))
    (x : ConfigVar.State (V t)) : AnyVar.through t f ⟨t, x⟩ = ⟨t, f x⟩ := dif_pos rfl

theorem keeps_through [DecidableEq τ] {t : τ}
    {f : ConfigVar.State (V t) → ConfigVar.State (V t)}
    (hf : ∀ x, Idle x → Idle (f x)) : Keeps (AnyVar.through t f) := by
  rintro ⟨t', x⟩ hx
  by_cases heq : t' = t
  · subst heq
    rw [through_self]
    exact ⟨rfl, hf x hx⟩
  · rw [AnyVar.through, dif_neg heq]
    exact ⟨rfl, hx⟩

section
variable {fromStr : (t : τ) → Bytes → Option (V t)} {text : Bytes} {t : τ}
  {x : ConfigVar.State (V t)}

theorem fromString_none (h : fromStr t text = none) :
    AnyVar.fromString fromStr text ⟨t, x⟩ = ⟨t, x⟩ := by
  rw [AnyVar.fromString]
  simp only [h]

theorem fromString_some {val : V t} (h : fromStr t text = some val) :
    AnyVar.fromString fromStr text ⟨t, x⟩ = ⟨t, x.setValue val⟩ := by
  rw [AnyVar.fromString]
  simp only [h]

end

theorem keeps_fromString (fromStr : (t : τ) → Bytes → Option (V t)) (text : Bytes) :
    Keeps (AnyVar.fromString fromStr text) := by
  intro x hx
  unfold AnyVar.fromString
  split
  · exact ⟨rfl, hx.setValue _⟩
  · exact ⟨rfl, hx⟩

/-! ## the invariant -/

variable [DecidableEq τ]

structure Inv (s : State V) : Prop where
  registry : ConfigLookup.Inv s.registry
  types : ∀ p : Nat, (s.vars[p]?).map Sigma.fst = (s.registry.heap[p]?).map ConfigLookup.Var.type
  idle : ∀ (p : Nat) (x : AnyVar V), s.vars[p]? = some x → Idle x.2

theorem init_inv : Inv (init : State V) := ⟨ConfigLookup.init_inv, fun _ => rfl, nofun⟩

omit [∀ t, BEq (V t)] [DecidableEq τ] in
theorem getElem?_call (s : State V) (p q : Nat) (f : AnyVar V → AnyVar V) :
    (s.call p f).vars[q]? = if p = q then (s.vars[q]?).map f else s.vars[q]? := by
  rw [State.call, List.getElem?_modify]
  split
  · rfl
  · exact congrFun Option.map_id _

omit [∀ t, BEq (V t)] [DecidableEq τ] in
/-- The variables after a section of `Lookup`: those that were there, and the
one it has made. -/
theorem getElem?_lookup (s : State V) (registry : ConfigLookup.State V) (p : Nat) :
    (s.lookup registry).vars[p]? =
      if p < s.vars.length then s.vars[p]? else (registry.heap[p]?).map AnyVar.make := by
  rw [State.lookup]
  dsimp only
  split
  · next hlt => exact List.getElem?_append_left hlt
  · next hge =>
      rw [List.getElem?_append_right (by omega), List.getElem?_map, List.getElem?_drop,
        Nat.add_sub_cancel' (by omega)]

section
variable {s t : State V}

/-- There are as many variables as the registry has made. -/
theorem Inv.length_vars (hs : Inv s) : s.vars.length = s.registry.heap.length := by
  have hlen : s.vars.map Sigma.fst = s.registry.heap.map ConfigLookup.Var.type :=
    List.ext_getElem? fun p => by rw [List.getElem?_map, List.getElem?_map, hs.types p]
  simpa only [List.length_map] using congrArg List.length hlen

theorem Inv.call (hs : Inv s) (p : Nat) {f : AnyVar V → AnyVar V} (hf : Keeps f) :
    Inv (s.call p f) where
  registry := hs.registry
  types q := by
    have htypes := hs.types q
    rw [getElem?_call]
    split
    · cases hx : s.vars[q]? with
      | none => rwa [hx] at htypes
      | some x =>
          rw [hx] at htypes
          exact (congrArg some (hf x (hs.idle q x hx)).1).trans htypes
    · exact htypes
  idle q y hy := by
    rw [getElem?_call] at hy
    split at hy
    · obtain ⟨x, hx, rfl⟩ := Option.map_eq_some_iff.mp hy
      exact (hf x (hs.idle q x hx)).2
    · exact hs.idle q y hy

theorem Inv.lookup (hs : Inv s) {a : ConfigLookup.Action V} {registry : ConfigLookup.State V}
    (h : ConfigLookup.Step s.registry a registry) : Inv (s.lookup registry) := by
  obtain ⟨hinv, hgrows⟩ := ConfigLookup.step_inv hs.registry h
  refine ⟨hinv, fun p => ?_, fun p x hx => ?_⟩
  · rw [getElem?_lookup]
    split
    · next hlt =>
        obtain ⟨l, hl⟩ := hgrows.heap
        rw [hs.types p, State.lookup, ← hl, List.getElem?_append_left (hs.length_vars ▸ hlt)]
    · rw [Option.map_map]
      rfl
  · rw [getElem?_lookup] at hx
    split at hx
    · exact hs.idle p x hx
    · obtain ⟨v, -, rfl⟩ := Option.map_eq_some_iff.mp hx
      exact idle_init v.val

section
variable {print : Yaml → Bytes} {fromStr : (t : τ) → Bytes → Option (V t)}

theorem Inv.visit (hs : Inv s) (key : Bytes) (node : Yaml) :
    Inv (s.visit print fromStr key node) := by
  unfold State.visit
  split
  · exact hs
  · split
    · exact hs.call _ (keeps_fromString fromStr _)
    · exact hs

/-- **One step** keeps the registry in order, and no call under way. -/
theorem Inv.step (hs : Inv s) {a : Action V} (h : Step print fromStr s a t) : Inv t := by
  cases h with
  | lookup h => exact hs.lookup h
  | setValue val h => exact hs.call _ (keeps_through fun x hx => hx.setValue val)
  | @addListener p t h =>
      have hcall := hs.call p
        (keeps_through (t := t) fun x hx => hx.addListener (s.listenerId t + 1))
      exact ⟨hcall.registry, hcall.types, hcall.idle⟩
  | delListener id h => exact hs.call _ (keeps_through fun x hx => hx.delListener id)
  | clearListener h => exact hs.call _ (keeps_through fun x hx => hx.clearListener)
  | load rootNode h => exact ⟨hs.registry, hs.types, hs.idle⟩
  | @visit d key node rest h =>
      have hvisit : Inv (s.visit print fromStr key node) := hs.visit key node
      exact ⟨hvisit.registry, hvisit.types, hvisit.idle⟩
  | loaded h => exact ⟨hs.registry, hs.types, hs.idle⟩

theorem Inv.run (hs : Inv s) {as : List (Action V)} (h : Lts.Run (Step print fromStr) s as t) :
    Inv t :=
  h.invariant hs fun _ _ _ hi hstep => hi.step hstep

/-! ## one step of one variable -/

variable {p : Nat} {name : Bytes} {ty : τ} {val : V ty}

/-- What is there has the value it has, and so have its listeners' copies. -/
theorem Inv.worth (hs : Inv s) (hreg : s.registry.map name = some p)
    {x : ConfigVar.State (V ty)} (hx : s.vars[p]? = some ⟨ty, x⟩) : s.Worth p name x.val :=
  ⟨hreg, x, hx, rfl, (hs.idle p _ hx).mirrored⟩

theorem Inv.worth_lookup (hs : Inv s) (h : s.Worth p name val) {a : ConfigLookup.Action V}
    {registry : ConfigLookup.State V} (hstep : ConfigLookup.Step s.registry a registry) :
    (s.lookup registry).Worth p name val := by
  obtain ⟨hreg, x, hx, rfl, -⟩ := h
  have hgrows := (ConfigLookup.step_inv hs.registry hstep).2
  refine (hs.lookup hstep).worth (hgrows.map name p hreg) ?_
  rw [getElem?_lookup, if_pos (List.getElem?_eq_some_iff.mp hx).1, hx]

/-- A call on the variable. -/
theorem Inv.worth_self {f : AnyVar V → AnyVar V} (hcall : Inv (s.call p f))
    (hreg : s.registry.map name = some p) {x y : ConfigVar.State (V ty)}
    (hx : s.vars[p]? = some ⟨ty, x⟩) (hf : f ⟨ty, x⟩ = ⟨ty, y⟩) :
    (s.call p f).Worth p name y.val := by
  refine hcall.worth hreg ?_
  rw [getElem?_call, if_pos rfl, hx, Option.map_some, hf]

/-- A call on another one. -/
theorem Inv.worth_other {q : Nat} {f : AnyVar V → AnyVar V} (hcall : Inv (s.call q f))
    (h : s.Worth p name val) (hq : q ≠ p) : (s.call q f).Worth p name val := by
  obtain ⟨hreg, x, hx, rfl, -⟩ := h
  refine hcall.worth hreg ?_
  rw [getElem?_call, if_neg hq, hx]

/-- A call that keeps the value of whatever variable it is made on. -/
theorem Inv.worth_call (hs : Inv s) (h : s.Worth p name val) (q : Nat) {t : τ}
    {f : ConfigVar.State (V t) → ConfigVar.State (V t)} (hf : ∀ x, Idle x → Idle (f x))
    (hval : ∀ x, (f x).val = x.val) : (s.call q (AnyVar.through t f)).Worth p name val := by
  have hcall := hs.call q (keeps_through hf)
  by_cases hq : q = p
  · subst hq
    obtain ⟨hreg, x, hx, rfl, -⟩ := h
    by_cases ht : ty = t
    · subst ht
      rw [← hval x]
      exact hcall.worth_self hreg hx (through_self f x)
    · exact hcall.worth_self hreg hx (dif_neg ht)
  · exact hcall.worth_other h hq

/-- A pointer of type `t` to a variable of type `ty`. -/
theorem Inv.type_of_cast (hs : Inv s) (h : s.Worth p name val) {t : τ}
    (hcast : s.registry.cast p t = .var p) : t = ty := by
  obtain ⟨-, x, hx, -⟩ := h
  have htype := hs.types p
  rw [ConfigLookup.State.cast] at hcast
  split at hcast
  · next heq =>
      rw [heq, hx] at htype
      exact (Option.some.inj htype).symm
  · cases hcast

theorem Inv.worth_setValue (hs : Inv s) (h : s.Worth p name val) {q : Nat} {t : τ} (new : V t)
    (hcast : s.registry.cast q t = .var q) :
    (s.call q (AnyVar.through t (·.setValue new))).Worth p name
      ((written print fromStr p name ty (.setValue q t new)).elim val (replace val)) := by
  have hcall := hs.call q (keeps_through fun x hx => hx.setValue new)
  by_cases hq : q = p
  · subst hq
    obtain rfl := hs.type_of_cast h hcast
    obtain ⟨hreg, x, hx, rfl, -⟩ := h
    have hwritten : written print fromStr q name t (.setValue q t new) = some new :=
      dif_pos ⟨rfl, rfl⟩
    rw [hwritten, Option.elim_some, ← val_setValue]
    exact hcall.worth_self hreg hx (through_self ..)
  · have hwritten : written print fromStr p name ty (.setValue q t new) = none :=
      dif_neg fun h => hq h.1
    rw [hwritten]
    exact hcall.worth_other h hq

/-- Two names of one variable are one name. -/
theorem Inv.name_eq (hs : Inv s) {key : Bytes} (hkey : s.registry.map key = some p)
    (hname : s.registry.map name = some p) : key = name := by
  obtain ⟨v, hv, hvkey, -⟩ := hs.registry.registered key p hkey
  obtain ⟨w, hw, hwname, -⟩ := hs.registry.registered name p hname
  rw [hv] at hw
  cases hw
  exact hvkey.symm.trans hwname

omit [DecidableEq τ] in
theorem visit_of_some {key : Bytes} {node : Yaml} (hne : key ≠ [])
    (hmap : s.registry.map key = some p) : s.visit print fromStr key node =
      s.call p (AnyVar.fromString fromStr (nodeText print node)) := by
  rw [State.visit, if_neg hne, hmap]

theorem Inv.worth_visit (hs : Inv s) (h : s.Worth p name val) (d : Nat) (key : Bytes)
    (node : Yaml) : (s.visit print fromStr key node).Worth p name
      ((written print fromStr p name ty (.visit d key node)).elim val (replace val)) := by
  have hvisit : Inv (s.visit print fromStr key node) := hs.visit key node
  by_cases hload : key ≠ [] ∧ key = name
  · obtain ⟨hne, rfl⟩ := hload
    obtain ⟨hreg, x, hx, rfl, -⟩ := h
    have hwritten : written print fromStr p key ty (.visit d key node) =
        fromStr ty (nodeText print node) := if_pos ⟨hne, rfl⟩
    rw [hwritten]
    rw [visit_of_some hne hreg] at hvisit ⊢
    cases htext : fromStr ty (nodeText print node) with
    | none => exact hvisit.worth_self hreg hx (fromString_none htext)
    | some new =>
        rw [Option.elim_some, ← val_setValue]
        exact hvisit.worth_self hreg hx (fromString_some htext)
  · have hwritten : written print fromStr p name ty (.visit d key node) = none := if_neg hload
    rw [hwritten]
    by_cases hne : key = []
    · rwa [State.visit, if_pos hne]
    · cases hmap : s.registry.map key with
      | none => rwa [State.visit, if_neg hne, hmap]
      | some q =>
          rw [visit_of_some hne hmap] at hvisit ⊢
          have hother : q ≠ p := by
            rintro rfl
            exact hload ⟨hne, hs.name_eq hmap h.registered⟩
          exact hvisit.worth_other h hother

/-- **One step**, for a variable: it is worth what the action writes to it, if
it does. -/
theorem State.Worth.step (h : s.Worth p name val) (hs : Inv s) {a : Action V}
    (hstep : Step print fromStr s a t) :
    t.Worth p name ((written print fromStr p name ty a).elim val (replace val)) := by
  cases hstep with
  | lookup hstep => exact hs.worth_lookup h hstep
  | setValue new hcast => exact hs.worth_setValue h new hcast
  | @addListener q u hcast =>
      have hcall := hs.worth_call (t := u) h q
        (fun x hx => hx.addListener (s.listenerId u + 1)) fun _ => rfl
      exact ⟨hcall.registered, hcall.var⟩
  | delListener id hcast => exact hs.worth_call h _ (fun x hx => hx.delListener id) fun _ => rfl
  | clearListener hcast => exact hs.worth_call h _ (fun x hx => hx.clearListener) fun _ => rfl
  | load rootNode hd => exact ⟨h.registered, h.var⟩
  | @visit d key node rest hd =>
      have hvisit : (s.visit print fromStr key node).Worth p name
          ((written print fromStr p name ty (.visit d key node)).elim val (replace val)) :=
        hs.worth_visit h d key node
      exact ⟨hvisit.registered, hvisit.var⟩
  | loaded hd => exact ⟨h.registered, h.var⟩

/-! ## runs -/

/-- From where a variable is worth something on, it goes through what is
written to it. -/
theorem State.Worth.run (h : s.Worth p name val) (hs : Inv s) {as : List (Action V)}
    (hrun : Lts.Run (Step print fromStr) s as t) :
    t.Worth p name ((as.filterMap (written print fromStr p name ty)).foldl replace val) := by
  induction hrun with
  | nil => exact h
  | @snoc as t u a hrun hstep ih =>
      have hu := ih.step (hs.run hrun) hstep
      rw [List.filterMap_append, List.foldl_append]
      cases hwritten : written print fromStr p name ty a with
      | none =>
          rw [hwritten] at hu
          rwa [List.filterMap_cons_none hwritten]
      | some new =>
          rw [hwritten] at hu
          rwa [List.filterMap_cons_some hwritten]

/-- Only a lookup changes the registry. -/
theorem registry_of_step {a : Action V} (h : Step print fromStr s a t) :
    (∃ b, ConfigLookup.Step s.registry b t.registry ∧ t = s.lookup t.registry) ∨
      t.registry = s.registry := by
  cases h with
  | @lookup b registry h => exact .inl ⟨b, h, rfl⟩
  | @visit d key node rest =>
      refine .inr (show (s.visit print fromStr key node).registry = s.registry from ?_)
      unfold State.visit
      split
      · rfl
      · split <;> rfl
  | setValue | addListener | delListener | clearListener | load | loaded => exact .inr rfl

/-- A step that makes a variable: its name was free, and it is worth its
default value. -/
theorem Inv.made (hs : Inv s) {a : Action V} (hstep : Step print fromStr s a t)
    {v : ConfigLookup.Var V} (hold : s.registry.heap[p]? = none)
    (hv : t.registry.heap[p]? = some v) :
    s.registry.map v.name = none ∧ t.Worth p v.name v.val := by
  have ht := hs.step hstep
  have hreg := ht.registry.made p v hv
  rcases registry_of_step hstep with ⟨b, hb, hlookup⟩ | hsame
  · have hgrows := (ConfigLookup.step_inv hs.registry hb).2
    constructor
    · cases hmap : s.registry.map v.name with
      | none => rfl
      | some q =>
          cases hreg.symm.trans (hgrows.map v.name q hmap)
          obtain ⟨w, hw, -⟩ := hs.registry.registered v.name p hmap
          cases hold.symm.trans hw
    · have hlen : ¬ p < s.vars.length := by
        rw [hs.length_vars, Nat.not_lt]
        exact List.getElem?_eq_none_iff.mp hold
      refine ht.worth hreg (x := ConfigVar.init v.val) ?_
      rw [hlookup, getElem?_lookup, if_neg hlen, hv]
      rfl
  · rw [hsame, hold] at hv
    cases hv

end

end

end

/-! ## the document `a: 1` -/

end ConfigStore
end XzmjxRpc
