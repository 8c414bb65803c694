import Mathlib.Data.List.Nodup

/-!
# XzmjxRpc.Lib.Multimap

A multimap whose elements are pointed to by iterators.  An element lives in a
node with an identity of its own; an iterator is that identity, and it is dead
once its node has been erased.  Identities are never used again.

The nodes are kept in the order in which they were inserted, which is the
order in which `equalRange` runs through the elements of one key.  `erase`
through a dead iterator is `none`: a program that does it has no meaning from
there on.
-/

/-- An element and the identity of its node. -/
structure Multimap.Node (κ ν : Type) where
  id : Nat
  key : κ
  val : ν
  deriving DecidableEq, Repr

/-- A multimap: its nodes, and the identity that the next one gets. -/
structure Multimap (κ ν : Type) where
  nodes : List (Multimap.Node κ ν)
  next : Nat
  id_lt : ∀ n ∈ nodes, n.id < next
  nodup : (nodes.map Multimap.Node.id).Nodup

namespace Multimap

variable {κ ν : Type}

/-- A multimap without elements. -/
def empty : Multimap κ ν := ⟨[], 0, by simp, by simp⟩

/-- Insert an element; those of an equal key stand before it. -/
def emplace (m : Multimap κ ν) (k : κ) (v : ν) : Multimap κ ν where
  nodes := m.nodes ++ [⟨m.next, k, v⟩]
  next := m.next + 1
  id_lt := by
    intro n hn
    rcases List.mem_append.mp hn with h | h
    · exact Nat.lt_succ_of_lt (m.id_lt n h)
    · rw [List.mem_singleton.mp h]
      exact Nat.lt_succ_self _
  nodup := by
    rw [List.map_append, List.nodup_append]
    refine ⟨m.nodup, by simp, ?_⟩
    intro a ha b hb hab
    obtain ⟨n, hn, rfl⟩ := List.mem_map.mp ha
    have hlt := m.id_lt n hn
    rw [hab, List.mem_singleton.mp hb] at hlt
    exact absurd hlt (Nat.lt_irrefl _)

/-- Keep the elements that meet `p`. -/
def filter (m : Multimap κ ν) (p : Node κ ν → Bool) : Multimap κ ν where
  nodes := m.nodes.filter p
  next := m.next
  id_lt n hn := m.id_lt n (List.mem_of_mem_filter hn)
  nodup := m.nodup.sublist (List.filter_sublist.map _)

/-- The elements of a key, from `range.first` to `range.second`. -/
def equalRange [DecidableEq κ] (m : Multimap κ ν) (k : κ) : List (Node κ ν) :=
  m.nodes.filter (·.key = k)

/-- `erase(range.first, range.second)` for the range of a key. -/
def eraseRange [DecidableEq κ] (m : Multimap κ ν) (k : κ) : Multimap κ ν := m.filter (·.key ≠ k)

/-- The iterator points to an element. -/
def Alive (m : Multimap κ ν) (i : Nat) : Prop := i ∈ m.nodes.map Node.id

instance (m : Multimap κ ν) (i : Nat) : Decidable (m.Alive i) :=
  inferInstanceAs (Decidable (i ∈ m.nodes.map Node.id))

/-- `erase(iterator)`. -/
def erase (m : Multimap κ ν) (i : Nat) : Option (Multimap κ ν) :=
  if m.Alive i then some (m.filter (·.id ≠ i)) else none

/-- Erase through one iterator after the other. -/
def eraseAll : List Nat → Multimap κ ν → Option (Multimap κ ν)
  | [], m => some m
  | i :: is, m => (m.erase i).bind (eraseAll is)

/-- Insert one element after the other. -/
def emplaceAll (m : Multimap κ ν) (ps : List (κ × ν)) : Multimap κ ν :=
  ps.foldl (fun m p => m.emplace p.1 p.2) m

/-- The elements as pairs. -/
def pairs (m : Multimap κ ν) : List (κ × ν) := m.nodes.map fun n => (n.key, n.val)

@[simp] theorem nodes_empty : (empty : Multimap κ ν).nodes = [] := rfl
@[simp] theorem nodes_emplace (m : Multimap κ ν) (k : κ) (v : ν) :
    (m.emplace k v).nodes = m.nodes ++ [⟨m.next, k, v⟩] := rfl
@[simp] theorem nodes_filter (m : Multimap κ ν) (p : Node κ ν → Bool) :
    (m.filter p).nodes = m.nodes.filter p := rfl
@[simp] theorem nodes_eraseRange [DecidableEq κ] (m : Multimap κ ν) (k : κ) :
    (m.eraseRange k).nodes = m.nodes.filter (·.key ≠ k) := rfl
@[simp] theorem pairs_empty : (empty : Multimap κ ν).pairs = [] := rfl
@[simp] theorem pairs_emplace (m : Multimap κ ν) (k : κ) (v : ν) :
    (m.emplace k v).pairs = m.pairs ++ [(k, v)] := by simp [pairs]

/-- Two multimaps with the same nodes and the same next identity are equal. -/
theorem ext {m m' : Multimap κ ν} (hn : m.nodes = m'.nodes) (hx : m.next = m'.next) : m = m' := by
  cases m
  cases m'
  simp only at hn hx
  subst hn hx
  rfl

theorem mem_pairs {m : Multimap κ ν} {p : κ × ν} :
    p ∈ m.pairs ↔ ∃ n ∈ m.nodes, (n.key, n.val) = p := List.mem_map

theorem mem_equalRange [DecidableEq κ] {m : Multimap κ ν} {k : κ} {n : Node κ ν} :
    n ∈ m.equalRange k ↔ n ∈ m.nodes ∧ n.key = k := by
  simp [equalRange]

/-- The values in a range are those paired with its key, in order. -/
theorem map_val_equalRange [DecidableEq κ] (m : Multimap κ ν) (k : κ) :
    (m.equalRange k).map Node.val = (m.pairs.filter (·.1 = k)).map Prod.snd := by
  simp [equalRange, pairs, List.filter_map, Function.comp_def]

/-- In a map without repeated elements a range has no value twice. -/
theorem nodup_map_val_equalRange [DecidableEq κ] {m : Multimap κ ν} (h : m.pairs.Nodup) (k : κ) :
    ((m.equalRange k).map Node.val).Nodup := by
  rw [map_val_equalRange]
  apply List.Nodup.map_on _ (h.filter _)
  rintro ⟨a, b⟩ ha ⟨c, d⟩ hc hbd
  simp only [List.mem_filter, decide_eq_true_eq] at ha hc
  simp_all

/-- A node is determined by its identity. -/
theorem eq_of_id_eq {m : Multimap κ ν} {n n' : Node κ ν} (hn : n ∈ m.nodes) (hn' : n' ∈ m.nodes)
    (h : n.id = n'.id) : n = n' :=
  List.inj_on_of_nodup_map m.nodup hn hn' h

theorem emplaceAll_cons (m : Multimap κ ν) (p : κ × ν) (ps : List (κ × ν)) :
    m.emplaceAll (p :: ps) = (m.emplace p.1 p.2).emplaceAll ps := rfl

/-- Inserting adds nodes at the end, whose identities are new. -/
theorem nodes_emplaceAll (m : Multimap κ ν) (ps : List (κ × ν)) :
    ∃ ns, (m.emplaceAll ps).nodes = m.nodes ++ ns ∧ ns.map (fun n => (n.key, n.val)) = ps ∧
      ∀ n ∈ ns, m.next ≤ n.id := by
  induction ps generalizing m with
  | nil => exact ⟨[], by simp [emplaceAll], rfl, by simp⟩
  | cons p ps ih =>
      obtain ⟨ns, hnodes, hpairs, hids⟩ := ih (m.emplace p.1 p.2)
      refine ⟨⟨m.next, p.1, p.2⟩ :: ns, ?_, ?_, ?_⟩
      · rw [emplaceAll_cons, hnodes]
        simp
      · simp [hpairs]
      · intro n hn
        rcases List.mem_cons.mp hn with rfl | hn
        · exact Nat.le_refl _
        · exact Nat.le_of_succ_le (hids n hn)

theorem pairs_emplaceAll (m : Multimap κ ν) (ps : List (κ × ν)) :
    (m.emplaceAll ps).pairs = m.pairs ++ ps := by
  obtain ⟨ns, hnodes, hpairs, -⟩ := m.nodes_emplaceAll ps
  rw [pairs, hnodes, List.map_append, hpairs, pairs]

/-! ## erasing through a list of iterators -/

/-- **Erasing collected iterators** goes well exactly when all of them are
alive and none of them is there twice. -/
theorem isSome_eraseAll {m : Multimap κ ν} {is : List Nat} :
    (eraseAll is m).isSome ↔ is.Nodup ∧ ∀ i ∈ is, m.Alive i := by
  induction is generalizing m with
  | nil => simp [eraseAll]
  | cons i is ih =>
      by_cases hi : m.Alive i
      · -- the others must be alive without the node of `i`
        have halive : ∀ j, (m.filter (·.id ≠ i)).Alive j ↔ m.Alive j ∧ j ≠ i := by
          intro j
          simp only [Alive, nodes_filter, List.mem_map, List.mem_filter]
          grind
        simp only [eraseAll, erase, if_pos hi, Option.bind_some, ih, halive, List.nodup_cons,
          List.forall_mem_cons]
        grind
      · simp [eraseAll, erase, hi]

/-- What is left are the nodes that no iterator pointed to. -/
theorem nodes_eraseAll {m m' : Multimap κ ν} {is : List Nat} (h : eraseAll is m = some m') :
    m'.nodes = m.nodes.filter (·.id ∉ is) ∧ m'.next = m.next := by
  induction is generalizing m with
  | nil =>
      cases h
      simp
  | cons i is ih =>
      rw [eraseAll, erase] at h
      split at h
      · obtain ⟨hnodes, hnext⟩ := ih h
        refine ⟨?_, hnext⟩
        rw [hnodes, nodes_filter, List.filter_filter]
        apply List.filter_congr
        intro n hn
        simp [Bool.and_comm]
      · cases h

end Multimap
