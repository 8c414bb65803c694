import Mathlib.Data.List.Count
import XzmjxRpc.Utils.Codec

/-!
# XzmjxRpc.Utils.Config

`ListAllNodes` and `Config::LoadFromYaml` (`utils/config.cpp`), on a YAML tree
as yaml-cpp presents it: the entries of a map in document order.

`ListAllNodes` threads the path of a node down as its `prefix`.  At the root,
where the prefix is empty, it assigns the first key to it, and from the second
entry on the root's keys are taken for keys below the first one.  So only the
nodes below the first root key are listed under their key path
(`listAllNodes_map`).
-/

namespace XzmjxRpc

/-- A YAML node. -/
inductive Yaml where
  | null
  | scalar (s : Bytes)
  | sequence (items : List Yaml)
  | map (entries : List (Bytes × Yaml))

namespace Config

/-- `"."`. -/
def dot : Byte := 46

/-! ## the code -/

mutual

/-- `ListAllNodes(prefix, node, ouput)`: what it appends to `ouput`. -/
def listAllNodes (path : Bytes) : Yaml → List (Bytes × Yaml)
  | .null => [(path, .null)]
  | .scalar s => [(path, .scalar s)]
  | .sequence items => [(path, .sequence items)]
  | .map entries => (path, .map entries) :: listEntries path entries

/-- Its loop over the entries of a map. -/
def listEntries (path : Bytes) : List (Bytes × Yaml) → List (Bytes × Yaml)
  | [] => []
  | (key, node) :: entries =>
      -- `prefix == "" ? prefix = key : prefix + "." + key`
      if path = [] then listAllNodes key node ++ listEntries key entries
      else listAllNodes (path ++ dot :: key) node ++ listEntries path entries

end

section
variable (print : Yaml → Bytes) (registered : Bytes → Bool)

/-- What a variable is loaded from: a scalar's own text, or the node as
`operator<<` prints it. -/
def nodeText : Yaml → Bytes
  | .scalar s => s
  | node => print node

/-- `LookupBase(name)`: the variable of that name. -/
def lookupBase (name : Bytes) : Option Bytes := if registered name then some name else none

/-- `LoadFromYaml(rootNode)`: the calls of `fromString` it makes, in order,
each with the variable's name and the text. -/
def loadFromYaml (rootNode : Yaml) : List (Bytes × Bytes) :=
  (listAllNodes [] rootNode).filterMap fun (key, node) =>
    if key = [] then none
    else (lookupBase registered key).map fun var => (var, nodeText print node)

/-! ## what it is for -/

mutual

/-- The nodes below a node, each with its dotted key path from there. -/
def nodesBelow : Yaml → List (Bytes × Yaml)
  | .map entries => nodesOfEntries entries
  | _ => []

/-- Those of the entries of a map. -/
def nodesOfEntries : List (Bytes × Yaml) → List (Bytes × Yaml)
  | [] => []
  | (key, node) :: entries =>
      (key, node) :: (nodesBelow node).map (fun p => (key ++ dot :: p.1, p.2)) ++
        nodesOfEntries entries

end

/-- The calls for a list of nodes: one for each whose name is registered. -/
def callsFor (nodes : List (Bytes × Yaml)) : List (Bytes × Bytes) :=
  nodes.filterMap fun (name, node) =>
    if registered name then some (name, nodeText print node) else none

/-- The document loads as it should: `fromString` is called once for each node
whose key path is the name of a registered variable, with the node's text, and
for nothing else. -/
def LoadsRight (rootNode : Yaml) : Prop :=
  (loadFromYaml print registered rootNode).Perm (callsFor print registered (nodesBelow rootNode))

/-- The entries of the root map. -/
def rootEntries : Yaml → List (Bytes × Yaml)
  | .map entries => entries
  | _ => []

/-- The texts of the nodes of a list that have this name. -/
def textsAt (name : Bytes) (nodes : List (Bytes × Yaml)) : List Bytes :=
  (nodes.filter (·.1 = name)).map fun p => nodeText print p.2

/-- For each registered name, the nodes below the later root keys have the same
texts there with the first root key in front of their paths as without it. -/
def LaterKeysUnaffected : List (Bytes × Yaml) → Prop
  | [] => True
  | (key, _) :: later => ∀ name, registered name = true →
      (textsAt print name ((nodesOfEntries later).map fun p => (key ++ dot :: p.1, p.2))).Perm
        (textsAt print name (nodesOfEntries later))

end

/-! ## below a path that is not empty -/

mutual

/-- From a path that is not empty on, the nodes are listed under their paths. -/
theorem listAllNodes_eq {path : Bytes} (h : path ≠ []) :
    (node : Yaml) → listAllNodes path node =
      (path, node) :: (nodesBelow node).map fun p => (path ++ dot :: p.1, p.2)
  | .null => rfl
  | .scalar _ => rfl
  | .sequence _ => rfl
  | .map entries => by rw [listAllNodes, nodesBelow, listEntries_eq h entries]

theorem listEntries_eq {path : Bytes} (h : path ≠ []) :
    (entries : List (Bytes × Yaml)) → listEntries path entries =
      (nodesOfEntries entries).map fun p => (path ++ dot :: p.1, p.2)
  | [] => rfl
  | (key, node) :: entries => by
      rw [listEntries, if_neg h, listAllNodes_eq (by simp) node, listEntries_eq h entries,
        nodesOfEntries]
      simp

end

/-- **The listing**: the first root entry comes with its key paths, the others
with the first key in front of theirs. -/
theorem listAllNodes_map {key : Bytes} (hkey : key ≠ []) (node : Yaml)
    (later : List (Bytes × Yaml)) :
    listAllNodes [] (.map ((key, node) :: later)) =
      ([], .map ((key, node) :: later)) ::
        (nodesOfEntries [(key, node)] ++
          (nodesOfEntries later).map fun p => (key ++ dot :: p.1, p.2)) := by
  rw [listAllNodes, listEntries, if_pos rfl, listAllNodes_eq hkey node, listEntries_eq hkey later]
  simp [nodesOfEntries]

/-! ## loading -/

section
variable {print : Yaml → Bytes} {registered : Bytes → Bool}

/-- Nodes that all have a name are loaded like any list of nodes. -/
theorem filterMap_eq_callsFor {nodes : List (Bytes × Yaml)} (h : ∀ p ∈ nodes, p.1 ≠ []) :
    (nodes.filterMap fun (key, node) =>
      if key = [] then none
      else (lookupBase registered key).map fun var => (var, nodeText print node)) =
        callsFor print registered nodes := by
  apply List.filterMap_congr
  rintro ⟨key, node⟩ hp
  have hkey : key ≠ [] := h _ hp
  simp only [if_neg hkey, lookupBase]
  split <;> rfl

theorem callsFor_append (l l' : List (Bytes × Yaml)) :
    callsFor print registered (l ++ l') =
      callsFor print registered l ++ callsFor print registered l' := List.filterMap_append

/-- How often a call is made for a list of nodes. -/
theorem count_callsFor (name text : Bytes) (nodes : List (Bytes × Yaml)) :
    (callsFor print registered nodes).count (name, text) =
      if registered name then (textsAt print name nodes).count text else 0 := by
  induction nodes with
  | nil => simp [callsFor, textsAt]
  | cons p nodes ih =>
      obtain ⟨key, node⟩ := p
      rw [callsFor] at ih
      rw [callsFor, List.filterMap_cons, textsAt, List.filter_cons]
      by_cases hreg : registered key <;> by_cases hkey : key = name <;>
        simp_all [textsAt, List.count_cons]

/-- The same calls are made for two lists of nodes exactly when their nodes
with registered names have the same texts. -/
theorem callsFor_perm_iff {l l' : List (Bytes × Yaml)} :
    (callsFor print registered l).Perm (callsFor print registered l') ↔
      ∀ name, registered name = true → (textsAt print name l).Perm (textsAt print name l') := by
  simp only [List.perm_iff_count, Prod.forall, count_callsFor]
  constructor
  · intro h name hreg text
    simpa [hreg] using h name text
  · intro h name text
    split
    · next hreg => exact h name hreg text
    · rfl

/-- A map whose first key is not empty loads as it should exactly when the
nodes below the later keys are not affected by the first key. -/
theorem loadsRight_map_iff {key : Bytes} (hkey : key ≠ []) (node : Yaml)
    (later : List (Bytes × Yaml)) :
    LoadsRight print registered (.map ((key, node) :: later)) ↔
      LaterKeysUnaffected print registered ((key, node) :: later) := by
  have hnames : ∀ p ∈ nodesOfEntries [(key, node)] ++
      (nodesOfEntries later).map (fun p => (key ++ dot :: p.1, p.2)), p.1 ≠ [] := by
    intro p hp
    simp only [nodesOfEntries, List.append_nil, List.mem_append, List.mem_cons, List.mem_map] at hp
    rcases hp with (rfl | ⟨q, -, rfl⟩) | ⟨q, -, rfl⟩
    · exact hkey
    · simp
    · simp
  have hload : loadFromYaml print registered (.map ((key, node) :: later)) =
      callsFor print registered (nodesOfEntries [(key, node)]) ++
        callsFor print registered
          ((nodesOfEntries later).map fun p => (key ++ dot :: p.1, p.2)) := by
    rw [← callsFor_append, ← filterMap_eq_callsFor hnames, loadFromYaml,
      listAllNodes_map hkey node later]
    rfl
  have hright : nodesBelow (.map ((key, node) :: later)) =
      nodesOfEntries [(key, node)] ++ nodesOfEntries later := by
    simp [nodesBelow, nodesOfEntries]
  rw [LoadsRight, hload, hright, callsFor_append, List.perm_append_left_iff, callsFor_perm_iff]
  rfl

/-- A document with one root key loads as it should. -/
theorem loadsRight_of_one_key {key : Bytes} (hkey : key ≠ []) (node : Yaml) :
    LoadsRight print registered (.map [(key, node)]) :=
  (loadsRight_map_iff hkey node []).mpr fun _ _ => List.Perm.refl _

/-- A setting below a later root key is lost, unless its name starts with the
first one. -/
theorem not_loadsRight_of_later {key : Bytes} (hkey : key ≠ []) (node : Yaml)
    {later : List (Bytes × Yaml)} {p : Bytes × Yaml} (hp : p ∈ nodesOfEntries later)
    (hreg : registered p.1 = true) (hname : ¬ key ++ [dot] <+: p.1) :
    ¬ LoadsRight print registered (.map ((key, node) :: later)) := by
  rw [loadsRight_map_iff hkey]
  intro h
  have hnone : textsAt print p.1 ((nodesOfEntries later).map fun q => (key ++ dot :: q.1, q.2)) =
      [] := by
    simp only [textsAt, List.map_eq_nil_iff, List.filter_eq_nil_iff, List.mem_map,
      decide_eq_true_eq]
    rintro _ ⟨q, -, rfl⟩ heq
    exact hname ⟨q.1, by simpa using heq⟩
  have hsome : nodeText print p.2 ∈ textsAt print p.1 (nodesOfEntries later) :=
    List.mem_map_of_mem (f := fun q => nodeText print q.2)
      (List.mem_filter.mpr ⟨hp, by simp⟩)
  have hperm := h p.1 hreg
  rw [hnone] at hperm
  rw [← hperm.nil_eq] at hsome
  cases hsome

/-- **Loading a document** goes right exactly when the nodes below the second
and later root keys are not affected by the first key in front of them. -/
theorem loadsRight_iff (rootNode : Yaml) (h : ∀ entry ∈ rootEntries rootNode, entry.1 ≠ []) :
    LoadsRight print registered rootNode ↔
      LaterKeysUnaffected print registered (rootEntries rootNode) := by
  have hleaf : ∀ node, listAllNodes [] node = [([], node)] → nodesBelow node = [] →
      LoadsRight print registered node := by
    intro node hlist hnodes
    rw [LoadsRight, loadFromYaml, hlist, hnodes]
    exact List.Perm.refl _
  match rootNode, h with
  | .null, _ => exact iff_of_true (hleaf _ rfl rfl) trivial
  | .scalar s, _ => exact iff_of_true (hleaf _ rfl rfl) trivial
  | .sequence items, _ => exact iff_of_true (hleaf _ rfl rfl) trivial
  | .map [], _ => exact iff_of_true (hleaf _ rfl rfl) trivial
  | .map ((key, node) :: later), h =>
      exact loadsRight_map_iff (h (key, node) List.mem_cons_self) node later

end

/-- `a: {b: 1}`, with `a.b` registered. -/
theorem loadsRight_iff_one_key :
    LoadsRight (fun _ => []) (· = [97, 46, 98])
        (.map [([97], .map [([98], .scalar [49])])]) ↔
      LaterKeysUnaffected (fun _ => []) (· = [97, 46, 98])
        (rootEntries (.map [([97], .map [([98], .scalar [49])])])) :=
  loadsRight_iff _ (by simp [rootEntries])

/-- `a: 1`, then `b: 2`, with `b` registered: its path is listed as `a.b`. -/
theorem not_loadsRight_second_key :
    ∃ (print : Yaml → Bytes) (registered : Bytes → Bool) (rootNode : Yaml),
      (∀ entry ∈ rootEntries rootNode, entry.1 ≠ []) ∧
        ¬ LoadsRight print registered rootNode ∧ loadFromYaml print registered rootNode = [] :=
  ⟨fun _ => [], (· = [98]), .map [([97], .scalar [49]), ([98], .scalar [50])],
    by simp [rootEntries], by unfold LoadsRight; decide, by decide⟩

end Config

end XzmjxRpc
