import Mathlib.Algebra.BigOperators.Group.Finset.Basic
import Mathlib.Order.Bounds.Basic
import XzmjxRpc.Rpc.Serializer

/-!
# XzmjxRpc.Rpc.Serializer.Shortest

How long an encoding has to be.

`>>` accepts more than `<<` writes: a number with groups of zeros at its end, a
set with an element in it twice.  `Ty.size` is what a value costs at least
(`takes_size`), and `<<` spends no more on it (`length_serialize`).  So
what `<<` writes is the shortest of what `>>` accepts for the value, and no
encoding of an object is the beginning of that of another one
(`serialize_canonical`).
-/

namespace XzmjxRpc

/-! ## numbers -/

theorem takes_writeUint32 : Reader.Takes readUint32 fun v => (writeUint32 v).length :=
  Varint.takes_encode (Reader.Takes.next _) (by decide) fun v =>
    (Option.some_get (isSome_encode_five v)).symm

theorem takes_writeUint64 : Reader.Takes readUint64 fun v => (writeUint64 v).length :=
  Varint.takes_encode (Reader.Takes.next _) (by decide) fun v =>
    (Option.some_get (isSome_encode_ten v)).symm

/-- The bytes of a count. -/
def sizeCount (n : Nat) : Nat := (writeUint64 (BitVec.ofNat 64 n)).length

/-- A smaller count has no more of them. -/
theorem sizeCount_le {m : Nat} {n : BitVec 64} (h : m ≤ n.toNat) :
    sizeCount m ≤ (writeUint64 n).length := by
  have hcode (v : BitVec 64) : Varint.encode 10 v = some (writeUint64 v) :=
    (Option.some_get (isSome_encode_ten v)).symm
  have hpos := List.length_pos_iff.mpr (Varint.encode_ne_nil (hcode n))
  have hn := (Varint.length_le_iff (hcode n) hpos).mp (Nat.le_refl _)
  refine (Varint.length_le_iff (hcode _) hpos).mpr ?_
  rw [BitVec.toNat_ofNat, Nat.mod_eq_of_lt (h.trans_lt n.isLt)]
  exact h.trans_lt hn

/-! ## every type -/

mutual

/-- What a value of the type costs at least. -/
def Ty.size : (t : Ty) → t.Val → Nat
  | .bool, _ => 1
  | .float, _ => 4
  | .double, _ => 8
  | .uint8, _ => 1
  | .int8, _ => 1
  | .uint16, _ => 2
  | .int16, _ => 2
  | .uint32, (v : BitVec 32) => (writeUint32 v).length
  | .int32, (v : BitVec 32) => (writeInt32 v).length
  | .uint64, (v : BitVec 64) => (writeUint64 v).length
  | .int64, (v : BitVec 64) => (writeInt64 v).length
  | .string, (s : Bytes) => sizeCount s.length + s.length
  | .vector t, (l : List t.Val) => sizeCount l.length + (l.map t.size).sum
  | .list t, (l : List t.Val) => sizeCount l.length + (l.map t.size).sum
  | .set t, (s : Finset t.Val) => sizeCount s.card + s.sum t.size
  | .unorderedSet t, (s : Finset t.Val) => sizeCount s.card + s.sum t.size
  | .map _ _, _ => 0
  | .unorderedMap _ _, _ => 0
  | .tuple ts, tp => Ty.sizes ts tp

/-- What a tuple costs at least. -/
def Ty.sizes : (ts : List Ty) → (Ty.interps ts).Val → Nat
  | [], _ => 0
  | t :: ts, (v, vs) => t.size v + Ty.sizes ts vs

end

/-! ## what is accepted -/

/-- A string costs its count and its characters. -/
theorem takes_readStringVint_size [Machine] :
    Reader.Takes readStringVint fun s => sizeCount s.length + s.length := by
  intro s str rest h
  obtain ⟨len, s', hlen, hstr⟩ := Reader.bind_eq_ok.mp h
  rw [readChars_eq] at hstr
  obtain ⟨rfl, hle⟩ := Reader.take_eq_ok.mp hstr
  have hprefix : (writeUint64 len).length + (str ++ rest).length ≤ s.length :=
    takes_writeUint64 s len _ hlen
  have hcode := sizeCount_le (Nat.le_of_eq hle)
  rw [List.length_append] at hprefix
  show sizeCount str.length + str.length + rest.length ≤ s.length
  omega

/-- A container costs its count and its elements. -/
theorem takes_counted {β : Type} {round : β → Decoder β} {size count : β → Nat} (empty : β)
    (hsize : size empty = 0) (hcount : count empty = 0)
    (hround : ∀ b, Reader.Pays (size b) (round b) size)
    (hone : ∀ b s b' rest, round b s = .ok (b', rest) → count b' ≤ count b + 1) :
    Reader.Takes (do let n ← readUint64; Reader.iterate round n.toNat empty)
      fun b => sizeCount (count b) + size b := by
  intro s b rest h
  obtain ⟨n, s', hn, hrounds⟩ := Reader.bind_eq_ok.mp h
  have hprefix : (writeUint64 n).length + s'.length ≤ s.length := takes_writeUint64 s n s' hn
  have hloop := Reader.Pays.iterate hround n.toNat empty s' b rest hrounds
  have hle := Reader.iterate_le hone hrounds
  rw [hsize] at hloop
  rw [hcount, Nat.zero_add] at hle
  have hcode := sizeCount_le hle
  show sizeCount (count b) + size b + rest.length ≤ s.length
  omega

section
variable {α : Type} {v : Decoder α} {size : α → Nat}

theorem takes_deserializeSeq (h : Reader.Takes v size) :
    Reader.Takes (deserializeSeq v []) fun l => sizeCount l.length + (l.map size).sum := by
  refine takes_counted (β := List α) [] (List.sum_nil) List.length_nil
    (fun l => (h.pays _).map fun x => ?_) fun l s l' rest hs => ?_
  · rw [List.map_append, List.sum_append, List.map_singleton, List.sum_singleton]
  · obtain ⟨x, -, rfl⟩ := Reader.map_eq_ok.mp hs
    rw [List.length_append, List.length_singleton]

theorem takes_deserializeSet [DecidableEq α] (h : Reader.Takes v size) :
    Reader.Takes (deserializeSet v ∅) fun s => sizeCount s.card + s.sum size := by
  refine takes_counted (β := Finset α) ∅ Finset.sum_empty Finset.card_empty
    (fun data => (h.pays _).map fun x => ?_) fun data s data' rest hs => ?_
  · by_cases hx : x ∈ data
    · rw [Finset.insert_eq_of_mem hx]
      exact Nat.le_add_right _ _
    · rw [Finset.sum_insert hx, Nat.add_comm]
  · obtain ⟨x, -, rfl⟩ := Reader.map_eq_ok.mp hs
    exact Finset.card_insert_le x data

end

section
variable [Machine]

mutual

/-- **What a value costs**: `>>` into a fresh variable takes no fewer bytes. -/
theorem takes_size : (t : Ty) → {old : t.Val} → t.interp.Fresh old →
    Reader.Takes (deserialize t old) t.size
  | .bool, _, _ => (Reader.Takes.next _).map _
  | .float, _, _ => takes_readFixed 4 .big
  | .double, _, _ => takes_readFixed 8 .big
  | .uint8, _, _ => Reader.Takes.next _
  | .int8, _, _ => Reader.Takes.next _
  | .uint16, _, _ => takes_readFixed 2 .big
  | .int16, _, _ => takes_readFixed 2 .big
  | .uint32, _, _ => takes_writeUint32
  | .int32, _, _ => ((takes_writeUint32.pays 0).map fun v => by
      rw [Nat.zero_add, Ty.size, writeInt32, encodeZigzag32, decodeZigzag32,
        Zigzag.encode_decode]).takes
  | .uint64, _, _ => takes_writeUint64
  | .int64, _, _ => ((takes_writeUint64.pays 0).map fun v => by
      rw [Nat.zero_add, Ty.size, writeInt64, encodeZigzag64, decodeZigzag64,
        Zigzag.encode_decode]).takes
  | .string, _, _ => takes_readStringVint_size
  | .vector t, _, rfl => takes_deserializeSeq (takes_size t t.interp.init_fresh)
  | .list t, _, rfl => takes_deserializeSeq (takes_size t t.interp.init_fresh)
  | .set t, _, rfl => takes_deserializeSet (takes_size t t.interp.init_fresh)
  | .unorderedSet t, _, rfl => takes_deserializeSet (takes_size t t.interp.init_fresh)
  | .map _ _, _, _ => (scans_deserialize _ _).takes
  | .unorderedMap _ _, _, _ => (scans_deserialize _ _).takes
  | .tuple ts, _, hold => takes_sizes ts hold

theorem takes_sizes : (ts : List Ty) → {old : (Ty.interps ts).Val} →
    (Ty.interps ts).Fresh old → Reader.Takes (deserializeTuple ts old) (Ty.sizes ts)
  | [], _, _ => Reader.Takes.pure _
  | t :: ts, (_, _), hold => (((takes_size t hold.1).pays 0).bind fun a =>
      ((takes_sizes ts hold.2).pays _).bind fun vs => Reader.Pays.pure (by
        rw [Ty.sizes, Nat.zero_add])).takes

end

/-! ## what is written -/

theorem length_writeFixed {n : Nat} (e : Endian) (v : BitVec (8 * n)) :
    (writeFixed e v).length = n := by
  rw [writeFixed_eq, Endian.length_bytes]

omit [Machine] in
/-- A sequence is written at the cost of its count and its elements. -/
theorem length_serializeSeq {α β : Type} {ser : α → Bytes} {f : α → β} {size : β → Nat}
    (h : ∀ x, (ser x).length = size (f x)) (l : List α) :
    (serializeSeq ser l).length =
      sizeCount (l.map f).length + ((l.map f).map size).sum := by
  have hlengths : l.map (fun x => (ser x).length) = (l.map f).map size := by
    rw [List.map_map]
    exact List.map_congr_left fun x _ => h x
  rw [serializeSeq, List.length_append, List.length_flatMap, sizeCount, hlengths,
    List.length_map]

omit [Machine] in
/-- So is a set, whose elements are all different. -/
theorem length_serializeSet {α β : Type} [DecidableEq β] {ser : α → Bytes} {f : α → β}
    {size : β → Nat} (h : ∀ x, (ser x).length = size (f x)) {l : List α}
    (hnodup : (l.map f).Nodup) : (serializeSeq ser l).length =
      sizeCount (l.map f).toFinset.card + (l.map f).toFinset.sum size := by
  rw [length_serializeSeq h, List.toFinset_card_of_nodup hnodup, List.sum_toFinset size hnodup]

mutual

/-- `<<` spends on an object what its value costs. -/
theorem length_serialize : (t : Ty) → (o : t.Obj) → (serialize t o).length = t.size (Ty.abs o)
  | .bool, _ => rfl
  | .float, v => length_writeFixed (n := 4) .big v
  | .double, v => length_writeFixed (n := 8) .big v
  | .uint8, _ => rfl
  | .int8, _ => rfl
  | .uint16, v => length_writeFixed (n := 2) .big v
  | .int16, v => length_writeFixed (n := 2) .big v
  | .uint32, _ => rfl
  | .int32, _ => rfl
  | .uint64, _ => rfl
  | .int64, _ => rfl
  | .string, _ => List.length_append
  | .vector t, data => length_serializeSeq (length_serialize t) data.1
  | .list t, data => length_serializeSeq (length_serialize t) data.1
  | .set t, data =>
      let := t.interp.decEq
      length_serializeSet (length_serialize t) data.2.2
  | .unorderedSet t, data =>
      let := t.interp.decEq
      length_serializeSet (length_serialize t) data.2.2
  | .map _ _, data => nomatch data
  | .unorderedMap _ _, data => nomatch data
  | .tuple ts, tp => length_serializeTuple ts tp

theorem length_serializeTuple : (ts : List Ty) → (tp : (Ty.interps ts).Obj) →
    (serializeTuple ts tp).length = Ty.sizes ts ((Ty.interps ts).abs tp)
  | [], _ => rfl
  | t :: ts, (v, vs) => by
      rw [serializeTuple, List.length_append, length_serialize t v, length_serializeTuple ts vs]
      rfl

end

/-- **The shortest encoding**: of all that `>>` takes for the value of an object,
`<<` writes the fewest bytes; and what `<<` writes for one object stands at the
front of a stream only where nothing else does that it writes for another one
of the type. -/
theorem serialize_canonical (t : Ty) (o : t.Obj) :
    IsLeast { n | ∃ xs, xs.length = n ∧ deserialize t t.init xs = .ok (Ty.abs o, []) }
        (serialize t o).length ∧
      ∀ (o' : t.Obj) (r r' : Bytes), serialize t o ++ r = serialize t o' ++ r' →
        serialize t o = serialize t o' ∧ r = r' := by
  have hread (o : t.Obj) (r : Bytes) := roundTrips t o t.init t.interp.init_fresh r
  refine ⟨⟨⟨serialize t o, rfl, ?_⟩, ?_⟩, fun o' r r' h => ?_⟩
  · have hself := hread o []
    rwa [List.append_nil] at hself
  · rintro n ⟨xs, rfl, hxs⟩
    have htaken := takes_size t t.interp.init_fresh xs _ _ hxs
    rwa [List.length_nil, Nat.add_zero, ← length_serialize] at htaken
  · have hboth := hread o r
    rw [h, hread o' r', Except.ok.injEq, Prod.mk.injEq] at hboth
    obtain ⟨-, rfl⟩ := hboth
    exact ⟨List.append_cancel_right h, rfl⟩

end

end XzmjxRpc
