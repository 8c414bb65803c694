import XzmjxRpc.Rpc.Serializer

/-!
# XzmjxRpc.Rpc.Serializer.Reuse

`>>` into a variable that holds something.

Scalars and strings are assigned.  A container keeps what it holds: the six
overloads for containers put their elements into the caller's object and never
clear it.  So `>>` into a variable is `>>` into a fresh one, merged into what
the variable holds (`deserialize_eq_merge`).
-/

namespace XzmjxRpc

/-! ## merging -/

mutual

/-- What a variable holds after `>>`, from what it held before and what a fresh
one would hold. -/
def Ty.merge : (t : Ty) → t.Val → t.Val → t.Val
  | .vector _, (old : List _), (v : List _) => old ++ v
  | .list _, (old : List _), (v : List _) => old ++ v
  | .set t, old, v => (v ∪ old : Finset t.Val)
  | .unorderedSet t, old, v => (v ∪ old : Finset t.Val)
  | .map k t, old, v => (v ∪ old : Finmap fun _ : k.Val => t.Val)
  | .unorderedMap k t, old, v => (v ∪ old : Finmap fun _ : k.Val => t.Val)
  | .tuple ts, old, v => Ty.merges ts old v
  | _, _, v => v

/-- A tuple is merged member by member. -/
def Ty.merges : (ts : List Ty) → (Ty.interps ts).Val → (Ty.interps ts).Val → (Ty.interps ts).Val
  | [], _, v => v
  | t :: ts, (old, olds), (v, vs) => (t.merge old v, Ty.merges ts olds vs)

end

mutual

/-- The two values agree in every container that a `>>` into them reaches:
the variable itself, or a member of a tuple at any depth. -/
def Ty.Agree : (t : Ty) → t.Val → t.Val → Prop
  | .vector _, a, b | .list _, a, b | .set _, a, b | .unorderedSet _, a, b => a = b
  | .map _ _, a, b | .unorderedMap _ _, a, b => a = b
  | .tuple ts, a, b => Ty.Agrees ts a b
  | _, _, _ => True

/-- The members agree one by one. -/
def Ty.Agrees : (ts : List Ty) → (Ty.interps ts).Val → (Ty.interps ts).Val → Prop
  | [], _, _ => True
  | t :: ts, (a, as), (b, bs) => t.Agree a b ∧ Ty.Agrees ts as bs

end

mutual

/-- Merging forgets all that the two values do not agree in. -/
theorem Ty.Agree.merge_eq : {t : Ty} → {a b : t.Val} → t.Agree a b → t.merge a = t.merge b
  | .bool, _, _, _ | .float, _, _, _ | .double, _, _, _ | .uint8, _, _, _ | .int8, _, _, _ => rfl
  | .uint16, _, _, _ | .int16, _, _, _ | .uint32, _, _, _ | .int32, _, _, _ => rfl
  | .uint64, _, _, _ | .int64, _, _, _ | .string, _, _, _ => rfl
  | .vector _, _, _, h | .list _, _, _, h | .set _, _, _, h | .unorderedSet _, _, _, h =>
      congrArg _ h
  | .map _ _, _, _, h | .unorderedMap _ _, _, _, h => congrArg _ h
  | .tuple _, _, _, h => Ty.Agrees.merges_eq h

theorem Ty.Agrees.merges_eq : {ts : List Ty} → {a b : (Ty.interps ts).Val} → Ty.Agrees ts a b →
    Ty.merges ts a = Ty.merges ts b
  | [], _, _, _ => rfl
  | t :: ts, (a, as), (b, bs), h => by
      funext v
      exact Prod.ext (congrFun h.1.merge_eq v.1) (congrFun h.2.merges_eq v.2)

end

mutual

/-- Merging a fresh value shows all the containers that were there. -/
theorem Ty.agree_of_merge_init : {t : Ty} → {a b : t.Val} →
    t.merge a t.init = t.merge b t.init → t.Agree a b
  | .bool, _, _, _ | .float, _, _, _ | .double, _, _, _ | .uint8, _, _, _ | .int8, _, _, _ =>
      trivial
  | .uint16, _, _, _ | .int16, _, _, _ | .uint32, _, _, _ | .int32, _, _, _ => trivial
  | .uint64, _, _, _ | .int64, _, _, _ | .string, _, _, _ => trivial
  | .vector t, a, b, h | .list t, a, b, h =>
      (List.append_nil (α := t.Val) a).symm.trans (h.trans (List.append_nil (α := t.Val) b))
  | .set t, a, b, h | .unorderedSet t, a, b, h =>
      (Finset.empty_union (α := t.Val) a).symm.trans (h.trans (Finset.empty_union (α := t.Val) b))
  | .map k t, a, b, h | .unorderedMap k t, a, b, h => by
      have hunion : ∀ m : Finmap fun _ : k.Val => t.Val, ∅ ∪ m = m := fun _ => Finmap.empty_union
      exact (hunion a).symm.trans (h.trans (hunion b))
  | .tuple _, _, _, h => Ty.agrees_of_merges_init h

theorem Ty.agrees_of_merges_init : {ts : List Ty} → {a b : (Ty.interps ts).Val} →
    Ty.merges ts a (Ty.interps ts).init = Ty.merges ts b (Ty.interps ts).init → Ty.Agrees ts a b
  | [], _, _, _ => trivial
  | _ :: _, (_, _), (_, _), h =>
      ⟨Ty.agree_of_merge_init (congrArg Prod.fst h), Ty.agrees_of_merges_init (congrArg Prod.snd h)⟩

end

/-! ## containers -/

/-- What every round leaves alone, the loop behind a count leaves alone. -/
theorem counted_map {β : Type} {f : β → Decoder β} {g : β → β} (h : ∀ b, f (g b) = g <$> f b)
    (b : β) :
    (do let n ← readUint64; Reader.iterate f n.toNat (g b)) =
      g <$> (do let n ← readUint64; Reader.iterate f n.toNat b) := by
  rw [map_bind]
  exact congrArg (readUint64 >>= ·) (funext fun n => Reader.iterate_map h n.toNat b)

section
variable {α β : Type}

theorem deserializeSeq_eq (d : Decoder α) (old : List α) :
    deserializeSeq d old = (old ++ ·) <$> deserializeSeq d [] := by
  have hround : ∀ data, (old ++ data ++ [·]) <$> d = (old ++ ·) <$> (data ++ [·]) <$> d := by
    intro data
    simp only [Functor.map_map, List.append_assoc]
  have h := counted_map (f := fun data => (data ++ [·]) <$> d) hround []
  rwa [List.append_nil] at h

theorem deserializeSet_eq [DecidableEq α] (d : Decoder α) (old : Finset α) :
    deserializeSet d old = (· ∪ old) <$> deserializeSet d ∅ := by
  have hround : ∀ data : Finset α,
      (insert · (data ∪ old)) <$> d = (· ∪ old) <$> (insert · data) <$> d := by
    intro data
    simp only [Functor.map_map, Finset.insert_union]
  have h := counted_map (f := fun data => (insert · data) <$> d) (g := (· ∪ old)) hround ∅
  rwa [Finset.empty_union] at h

theorem deserializeMap_eq [DecidableEq α] (first : Decoder α) (second : Decoder β)
    (old : Finmap fun _ : α => β) :
    deserializeMap first second old = (· ∪ old) <$> deserializeMap first second ∅ := by
  let round (data : Finmap fun _ : α => β) : Decoder (Finmap fun _ : α => β) := do
    let k ← first
    let v ← second
    pure (data.insert k v)
  have hround : ∀ data, round (data ∪ old) = (· ∪ old) <$> round data := by
    intro data
    simp only [round, map_bind, map_pure, Finmap.insert_union]
  have h := counted_map (g := (· ∪ old)) hround ∅
  rwa [Finmap.empty_union] at h

end

/-! ## every type -/

section
variable [Machine]

mutual

/-- **Reuse**: `>>` into a variable that holds `old` is `>>` into a fresh one,
merged into `old`. -/
theorem deserialize_eq_merge :
    (t : Ty) → (old : t.Val) → deserialize t old = t.merge old <$> deserialize t t.init
  | .bool, _ => (id_map _).symm
  | .float, _ => (id_map _).symm
  | .double, _ => (id_map _).symm
  | .uint8, _ => (id_map _).symm
  | .int8, _ => (id_map _).symm
  | .uint16, _ => (id_map _).symm
  | .int16, _ => (id_map _).symm
  | .uint32, _ => (id_map _).symm
  | .int32, _ => (id_map _).symm
  | .uint64, _ => (id_map _).symm
  | .int64, _ => (id_map _).symm
  | .string, _ => (id_map _).symm
  | .vector t, old => deserializeSeq_eq (deserialize t t.init) old
  | .list t, old => deserializeSeq_eq (deserialize t t.init) old
  | .set t, old => deserializeSet_eq (deserialize t t.init) old
  | .unorderedSet t, old => deserializeSet_eq (deserialize t t.init) old
  | .map k t, old => deserializeMap_eq (deserialize k k.init) (deserialize t t.init) old
  | .unorderedMap k t, old => deserializeMap_eq (deserialize k k.init) (deserialize t t.init) old
  | .tuple ts, old => deserializeTuple_eq_merge ts old

theorem deserializeTuple_eq_merge : (ts : List Ty) → (old : (Ty.interps ts).Val) →
    deserializeTuple ts old = Ty.merges ts old <$> deserializeTuple ts (Ty.interps ts).init
  | [], _ => rfl
  | t :: ts, (old, olds) => by
      show (do let v ← deserialize t old; let vs ← deserializeTuple ts olds; pure (v, vs)) =
        Ty.merges (t :: ts) (old, olds) <$>
          (do let v ← deserialize t t.init
              let vs ← deserializeTuple ts (Ty.interps ts).init
              pure (v, vs))
      rw [deserialize_eq_merge t old, deserializeTuple_eq_merge ts olds]
      simp only [map_bind, bind_map_left]
      rfl

end

/-! ## what the old value can show -/

/-- What a `>>` into a variable leaves there depends on the bytes only, not on
which of the two values the variable held. -/
def Oblivious (t : Ty) (old₁ old₂ : t.Val) : Prop :=
  ∀ s v rest, deserialize t old₁ s = .ok (v, rest) → deserialize t old₂ s = .ok (v, rest)

mutual

/-- Some bytes are read into a fresh variable without a change to it: zeros,
empty strings and empty containers. -/
theorem exists_reads_init :
    (t : Ty) → ∃ xs, Reader.Reads (deserialize t t.init) xs t.init
  | .bool => ⟨_, roundTrips .bool false _ trivial⟩
  | .float => ⟨_, roundTrips .float (0 : BitVec 32) _ trivial⟩
  | .double => ⟨_, roundTrips .double (0 : BitVec 64) _ trivial⟩
  | .uint8 => ⟨_, roundTrips .uint8 (0 : BitVec 8) _ trivial⟩
  | .int8 => ⟨_, roundTrips .int8 (0 : BitVec 8) _ trivial⟩
  | .uint16 => ⟨_, roundTrips .uint16 (0 : BitVec 16) _ trivial⟩
  | .int16 => ⟨_, roundTrips .int16 (0 : BitVec 16) _ trivial⟩
  | .uint32 => ⟨_, roundTrips .uint32 (0 : BitVec 32) _ trivial⟩
  | .int32 => ⟨_, roundTrips .int32 (0 : BitVec 32) _ trivial⟩
  | .uint64 => ⟨_, roundTrips .uint64 (0 : BitVec 64) _ trivial⟩
  | .int64 => ⟨_, roundTrips .int64 (0 : BitVec 64) _ trivial⟩
  | .string => ⟨_, roundTrips .string ⟨[], by decide⟩ _ trivial⟩
  | .vector _ | .list _ | .set _ | .unorderedSet _ | .map _ _ | .unorderedMap _ _ =>
      ⟨_, (reads_readUint64 0).bind_nil (Reader.Reads.pure _)⟩
  | .tuple ts => exists_readsTuple_init ts

theorem exists_readsTuple_init : (ts : List Ty) →
    ∃ xs, Reader.Reads (deserializeTuple ts (Ty.interps ts).init) xs (Ty.interps ts).init
  | [] => ⟨[], Reader.Reads.pure _⟩
  | t :: ts => by
      obtain ⟨xs, hxs⟩ := exists_reads_init t
      obtain ⟨ys, hys⟩ := exists_readsTuple_init ts
      exact ⟨xs ++ ys, hxs.bind (hys.bind_nil (Reader.Reads.pure _))⟩

end

/-- **What decoding forgets**: a `>>` depends on the bytes only, whichever of
the two values the variable held, exactly when the two agree in every
container that it reaches. -/
theorem oblivious_iff {t : Ty} {old₁ old₂ : t.Val} :
    Oblivious t old₁ old₂ ↔ t.Agree old₁ old₂ := by
  constructor
  · intro h
    obtain ⟨xs, hxs⟩ := exists_reads_init t
    have hread : ∀ old, deserialize t old (xs ++ []) = .ok (t.merge old t.init, []) := by
      intro old
      rw [deserialize_eq_merge t old]
      exact hxs.map (t.merge old) []
    have hsame := h _ _ _ (hread old₁)
    rw [hread old₂] at hsame
    have hmerge : t.merge old₂ t.init = t.merge old₁ t.init := by
      injection hsame with hpair
      exact congrArg Prod.fst hpair
    exact Ty.agree_of_merge_init hmerge.symm
  · intro h s v rest hs
    rw [deserialize_eq_merge t old₂, ← h.merge_eq, ← deserialize_eq_merge t old₁]
    exact hs

end

/-- The empty vector, read into a vector that holds `1` and into an empty
one. -/
theorem not_oblivious_vector :
    letI := x86_64
    ¬ Oblivious (.vector .int32) ([1#32] : List (BitVec 32)) ([] : List (BitVec 32)) := by
  intro h
  have hempty := h [0] [1#32] [] rfl
  cases hempty

end XzmjxRpc
