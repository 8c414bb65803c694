import Mathlib.Algebra.BigOperators.Group.Finset.Basic
import Mathlib.Algebra.Order.BigOperators.Group.List
import XzmjxRpc.Rpc.Serializer.Bound

/-!
# XzmjxRpc.Rpc.Serializer.Items

What the log of `>>` says about the value it returns.

`Ty.items` counts what is in a value.  Decoded into a fresh variable, a value
has no more in it than `construct` logged (`items_le_constructed`); less, where
a set or a map met an element or a key twice.
-/

namespace XzmjxRpc

mutual

/-- The number of scalars, strings, characters and containers in a value. -/
def Ty.items : (t : Ty) → t.Val → Nat
  | .string, (s : Bytes) => 1 + s.length
  | .vector t, (l : List t.Val) => 1 + (l.map t.items).sum
  | .list t, (l : List t.Val) => 1 + (l.map t.items).sum
  | .set t, (s : Finset t.Val) => 1 + s.sum t.items
  | .unorderedSet t, (s : Finset t.Val) => 1 + s.sum t.items
  | .map k v, (data : Finmap fun _ : k.Val => v.Val) =>
      1 + (data.entries.map fun e => k.items e.1 + v.items e.2).sum
  | .unorderedMap k v, (data : Finmap fun _ : k.Val => v.Val) =>
      1 + (data.entries.map fun e => k.items e.1 + v.items e.2).sum
  | .tuple ts, tp => Ty.itemsOf ts tp
  | _, _ => 1

/-- The number in a tuple. -/
def Ty.itemsOf : (ts : List Ty) → (Ty.interps ts).Val → Nat
  | [], _ => 0
  | t :: ts, (v, vs) => t.items v + Ty.itemsOf ts vs

end

/-! ## containers -/

/-- What a decoder logs for a value is no less than what the value counts. -/
abbrev Counts {α : Type} (v : Constructor α) (size : α → Nat) : Prop :=
  Metered.Gains Built.items 0 v size

section
variable {α β γ : Type} {v : Constructor α} {size : α → Nat}

/-- A loop that puts elements into an empty container. -/
theorem counts_constructCounted {round : γ → Constructor γ} {g : γ → Nat} (empty : γ)
    (hempty : g empty = 0)
    (hround : ∀ data, Metered.Gains Built.items (g data) (round data) g) :
    Counts (constructCounted round empty) fun data => 1 + g data := by
  have hcount : Metered.Gains Built.items 0
      (Metered.lift readUint64 fun (n : BitVec 64) rest => [Built.container n.toNat rest.length])
      fun _ => 1 + g empty := .lift fun n rest => by
    rw [hempty]
    exact Nat.le_refl 1
  exact hcount.bind fun n => .iterate (fun data => (hround data).add 1) n.toNat empty

theorem counts_constructSeq (h : Counts v size) :
    Counts (constructSeq v []) fun l => 1 + (l.map size).sum :=
  counts_constructCounted (g := fun l : List α => (l.map size).sum) [] List.sum_nil fun data =>
    (h.add (data.map size).sum).map fun x => by
      rw [List.map_append, List.sum_append, List.map_singleton, List.sum_singleton]

theorem counts_constructSet [DecidableEq α] (h : Counts v size) :
    Counts (constructSet v ∅) fun s => 1 + s.sum size :=
  counts_constructCounted (g := fun s : Finset α => s.sum size) ∅ Finset.sum_empty fun data =>
    (h.add (data.sum size)).map fun x => by
      by_cases hx : x ∈ data
      · rw [Finset.insert_eq_of_mem hx]
        exact Nat.le_add_right _ _
      · rw [Finset.sum_insert hx, Nat.add_comm]

/-- What the entries of a map count. -/
def sumEntries (size : α → Nat) (size' : β → Nat) (data : Finmap fun _ : α => β) : Nat :=
  (data.entries.map fun e => size e.1 + size' e.2).sum

/-- An entry put into a map takes the place of another one, or of none. -/
theorem sumEntries_insert_le [DecidableEq α] (size : α → Nat) (size' : β → Nat)
    (data : Finmap fun _ : α => β) (k : α) (x : β) :
    sumEntries size size' (data.insert k x) ≤
      sumEntries size size' data + size k + size' x := by
  refine data.induction_on fun l => ?_
  let count (e : Sigma fun _ : α => β) : Nat := size e.1 + size' e.2
  have hsub : ((l.entries.kerase k).map count).sum ≤ (l.entries.map count).sum :=
    ((List.kerase_sublist k l.entries).map count).sum_le_sum fun _ _ => Nat.zero_le _
  have hnew : sumEntries size size' (Finmap.insert k x l.toFinmap) =
      count ⟨k, x⟩ + ((l.entries.kerase k).map count).sum := by
    rw [Finmap.insert_toFinmap]
    exact List.sum_cons
  rw [hnew]
  show _ ≤ (l.entries.map count).sum + size k + size' x
  have hcount : count ⟨k, x⟩ = size k + size' x := rfl
  omega

theorem counts_constructMap [DecidableEq α] {v' : Constructor β} {size' : β → Nat}
    (h : Counts v size) (h' : Counts v' size') :
    Counts (constructMap v v' ∅) fun data => 1 + sumEntries size size' data :=
  counts_constructCounted (g := sumEntries size size') ∅ rfl fun data =>
    (h.add _).bind fun k => (h'.add _).bind fun x =>
      .pure (sumEntries_insert_le size size' data k x)

end

/-! ## every type -/

section
variable [Machine]

theorem counts_constructString : Counts constructString fun s => 1 + List.length s := by
  intro s l str rest l' h
  refine ⟨_, (constructString_of_ok h).1, ?_⟩
  rw [List.map_singleton, List.sum_singleton, Built.items, Nat.zero_add]

omit [Machine] in
theorem counts_scalar {α : Type} (m : Decoder α) :
    Counts (Metered.lift m fun _ _ => [Built.scalar]) fun _ => 1 :=
  .lift fun _ _ => Nat.le_refl 1

mutual

/-- What `>>` into a fresh variable logs is no less than what the value counts. -/
theorem counts_construct : (t : Ty) → {old : t.Val} → t.interp.Fresh old →
    Counts (construct t old) t.items
  | .bool, _, _ => counts_scalar _
  | .float, _, _ => counts_scalar _
  | .double, _, _ => counts_scalar _
  | .uint8, _, _ => counts_scalar _
  | .int8, _, _ => counts_scalar _
  | .uint16, _, _ => counts_scalar _
  | .int16, _, _ => counts_scalar _
  | .uint32, _, _ => counts_scalar _
  | .int32, _, _ => counts_scalar _
  | .uint64, _, _ => counts_scalar _
  | .int64, _, _ => counts_scalar _
  | .string, _, _ => counts_constructString
  | .vector t, _, rfl => counts_constructSeq (counts_construct t t.interp.init_fresh)
  | .list t, _, rfl => counts_constructSeq (counts_construct t t.interp.init_fresh)
  | .set t, _, rfl => counts_constructSet (counts_construct t t.interp.init_fresh)
  | .unorderedSet t, _, rfl => counts_constructSet (counts_construct t t.interp.init_fresh)
  | .map k v, _, rfl => counts_constructMap (counts_construct k k.interp.init_fresh)
      (counts_construct v v.interp.init_fresh)
  | .unorderedMap k v, _, rfl => counts_constructMap (counts_construct k k.interp.init_fresh)
      (counts_construct v v.interp.init_fresh)
  | .tuple ts, _, hold => counts_constructTuple ts hold

theorem counts_constructTuple : (ts : List Ty) → {old : (Ty.interps ts).Val} →
    (Ty.interps ts).Fresh old → Counts (constructTuple ts old) (Ty.itemsOf ts)
  | [], _, _ => .pure (Nat.zero_le _)
  | t :: ts, (_, _), hold => (counts_construct t hold.1).bind fun _ =>
      ((counts_constructTuple ts hold.2).add _).bind fun _ => .pure (Nat.le_refl _)

end

/-- **The log and the value**: what `>>` returns has no more in it than it is
logged to have built. -/
theorem items_le_constructed {t : Ty} {old v : t.Val} (hold : t.interp.Fresh old)
    {s rest : Bytes} (h : deserialize t old s = .ok (v, rest)) :
    t.items v ≤ ((constructed t old s).map Built.items).sum := by
  obtain ⟨log, hrun⟩ := (follows_construct t old).ok s [] v rest h
  obtain ⟨new, hnew, hle⟩ := counts_construct t hold s [] v rest log hrun
  rw [constructed, Metered.logOf, Metered.logAfter_ok hrun, hnew, List.nil_append]
  rwa [Nat.zero_add] at hle

/-- So it has no more in it than the message has bytes. -/
theorem items_add_le {t : Ty} (ht : t.NoEmptyTuple) {old v : t.Val} (hold : t.interp.Fresh old)
    {s rest : Bytes} (h : deserialize t old s = .ok (v, rest)) :
    t.items v + rest.length ≤ s.length := by
  have hle := items_le_constructed hold h
  have hpaid := (constructed_of_ok ht h).1
  omega

end

end XzmjxRpc
