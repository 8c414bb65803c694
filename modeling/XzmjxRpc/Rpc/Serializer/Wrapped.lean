import XzmjxRpc.Rpc.Serializer.Chunked

/-!
# XzmjxRpc.Rpc.Serializer.Wrapped

`>>` of the types that are read byte by byte, from a chunked `ByteArray`.

A read of one byte that ends on the border of a node leaves `m_cur` behind, so
a decoder that makes no other reads stays in the first node and sees it over
and over: a string decodes as `wrap` of it (`decodeOn_byteWise`).  What is
longer than a node comes back right only if it repeats itself
(`decodeOn_byteVector_iff`).
-/

namespace XzmjxRpc
namespace Serializer

/-! ## byte by byte -/

/-- What is seen of the data by a reader that meets the first `base` bytes over
and over. -/
def wrap (base : Nat) (data : Bytes) : Bytes := data.mapIdx fun i _ => data.getD (i % base) 0

/-- The flat buffer `f` holds what a reader sees that has taken every byte
of `b` so far one at a time. -/
structure Wrapped (b : ByteArray Byte) (f : FlatBuffer Byte) : Prop
    extends Tracks b (b.position / b.baseSize) f where
  base : 1 < b.baseSize
  data : ∀ i < b.size, f.data[i]? = b.cells[i % b.baseSize]?

theorem Wrapped.read {b : ByteArray Byte} {f : FlatBuffer Byte} (h : Wrapped b f) :
    Script.Matches Wrapped (b.read 1) (f.read 1) := by
  have hbase := h.base
  have hbytes (hfit : b.position + 1 ≤ b.size) :
      ByteArray.behind b.baseSize b.cells (b.position / b.baseSize) b.position 1 =
        (f.data.drop b.position).take 1 := by
    have hmod : b.position - b.position / b.baseSize * b.baseSize = b.position % b.baseSize := by
      have hdm := Nat.div_add_mod b.position b.baseSize
      rw [Nat.mul_comm] at hdm
      omega
    rw [ByteArray.behind, hmod, List.take_one, List.take_one, List.head?_drop, List.head?_drop,
      h.data _ hfit]
  refine (h.toTracks.read (fun h1 _ => absurd h1 (by decide)) hbytes).mono ?_
  rintro b' f' ⟨ht, hpos, hb, hc, hnodes, hdata⟩
  have hsize : b'.size = b.size := by rw [← ht.size, hdata, h.size]
  have hstep : b.position / b.baseSize + ByteArray.staleStep b.baseSize b.position 1 =
      b'.position / b'.baseSize := by
    rw [hpos, hb, Nat.succ_div, ByteArray.staleStep]
    congr 1
    refine if_congr ?_ rfl rfl
    rw [Nat.dvd_iff_mod_eq_zero]
    exact ⟨fun hs => hs.2.2, fun hm => ⟨Nat.one_pos, hbase, hm⟩⟩
  rw [hstep] at ht
  refine ⟨ht, by rw [hb]; exact hbase, ?_⟩
  rw [hdata, hsize, hb, ByteArray.cells, hnodes]
  exact h.data

/-- So it is at the start of a string. -/
theorem wrapped_ofStringOn {base : Nat} (hbase : 1 < base) (data : Bytes) :
    ∃ b, ofStringOn base data = .ok b ∧ Wrapped b (ofString (wrap base data)) := by
  obtain ⟨b, hb, href, rfl⟩ := ofStringOn_refines (Nat.zero_lt_of_lt hbase) data
  have ht := Tracks.of_refines href
  have hsize : data.length = b.size := by rw [← ht.size, data_ofString]
  have hlag : b.position / b.baseSize = 0 := by
    have h0 : b.position = 0 := href.position
    rw [h0, Nat.zero_div]
  refine ⟨b, hb, ⟨hlag.symm ▸ ht.lagging, ?_, ht.position⟩, hbase, fun i hi => ?_⟩
  · rw [data_ofString, wrap, List.length_mapIdx, hsize]
  · have hmod : i % b.baseSize < data.length := by
      have := Nat.mod_le i b.baseSize
      omega
    have hcell : b.cells[i % b.baseSize]? = data[i % b.baseSize]? := by
      rw [← data_ofString data, ← href.content, ByteArray.content, List.getElem?_take,
        if_pos (by omega)]
    rw [hcell, data_ofString, wrap, List.getElem?_mapIdx, List.getElem?_eq_getElem (by omega),
      Option.map_some, List.getD_eq_getElem?_getD,
      List.getElem?_eq_getElem hmod, Option.getD_some]

/-! ## types read byte by byte -/

mutual

/-- The type's `>>` makes reads of one byte only. -/
def byteWise : Ty → Bool
  | .bool | .uint8 | .int8 | .uint32 | .int32 | .uint64 | .int64 => true
  | .float | .double | .uint16 | .int16 | .string => false
  | .vector t | .list t | .set t | .unorderedSet t => byteWise t
  | .map k v | .unorderedMap k v => byteWise k && byteWise v
  | .tuple ts => byteWises ts

/-- Of every type in the list. -/
def byteWises : List Ty → Bool
  | [] => true
  | t :: ts => byteWise t && byteWises ts

end

/-- It reads one byte at a time. -/
abbrev Single {α : Type} (m : Script Ask Byte α) : Prop := m.Reads (· = .read 1)

theorem single_askFuint8 : Single askFuint8 := ⟨rfl, fun _ => .pure _⟩

theorem single_askBool : Single askBool := single_askFuint8.bind fun _ => .pure _

theorem single_askVarint {w : Nat} (rounds i : Nat) (ans : BitVec w) :
    Single (askVarint rounds i ans) := by
  induction rounds generalizing i ans with
  | zero => exact .pure _
  | succ rounds ih =>
      refine single_askFuint8.bind fun b => ?_
      split
      · exact ih _ _
      · exact .pure _

theorem single_askUint64 : Single askUint64 := single_askVarint 10 0 0

section
variable {α β : Type} {first : Script Ask Byte α} {second : Script Ask Byte β}

theorem single_askSeq (h : Single first) (data : List α) : Single (askSeq first data) :=
  single_askUint64.bind fun n =>
    Script.Reads.iterate (fun _ => h.bind fun _ => .pure _) n.toNat data

theorem single_askSet [DecidableEq α] (h : Single first) (data : Finset α) :
    Single (askSet first data) :=
  single_askUint64.bind fun n =>
    Script.Reads.iterate (fun _ => h.bind fun _ => .pure _) n.toNat data

theorem single_askMap [DecidableEq α] (h : Single first) (h' : Single second)
    (data : Finmap fun _ : α => β) : Single (askMap first second data) :=
  single_askUint64.bind fun n =>
    Script.Reads.iterate (fun _ => h.bind fun _ => h'.bind fun _ => .pure _) n.toNat data

end

section
variable [Machine]

mutual

theorem single_ask : (t : Ty) → byteWise t = true → (old : t.Val) → Single (ask t old)
  | .bool, _, _ => single_askBool
  | .uint8, _, _ => single_askFuint8
  | .int8, _, _ => single_askFuint8
  | .uint32, _, _ => single_askVarint 5 0 0
  | .int32, _, _ => (single_askVarint 5 0 0).bind fun _ => .pure _
  | .uint64, _, _ => single_askUint64
  | .int64, _, _ => single_askUint64.bind fun _ => .pure _
  | .vector t, h, data => single_askSeq (single_ask t h t.init) data
  | .list t, h, data => single_askSeq (single_ask t h t.init) data
  | .set t, h, data => single_askSet (single_ask t h t.init) data
  | .unorderedSet t, h, data => single_askSet (single_ask t h t.init) data
  | .map k v, h, data =>
      have hkv := (Bool.and_eq_true _ _).mp h
      single_askMap (single_ask k hkv.1 k.init) (single_ask v hkv.2 v.init) data
  | .unorderedMap k v, h, data =>
      have hkv := (Bool.and_eq_true _ _).mp h
      single_askMap (single_ask k hkv.1 k.init) (single_ask v hkv.2 v.init) data
  | .tuple ts, h, tp => single_askTuple ts h tp

theorem single_askTuple :
    (ts : List Ty) → byteWises ts = true → (tp : (Ty.interps ts).Val) → Single (askTuple ts tp)
  | [], _, _ => .pure _
  | t :: ts, h, (v, vs) =>
      have ht := (Bool.and_eq_true _ _).mp h
      (single_ask t ht.1 v).bind fun _ => (single_askTuple ts ht.2 vs).bind fun _ => .pure _

end

end

section
variable [Machine]

/-- `>>` of a type that is read byte by byte sees a string's first node repeated. -/
theorem getOn_wrapped {base : Nat} (hbase : 1 < base) (data : Bytes) {t : Ty}
    (ht : byteWise t = true) (old : t.Val) :
    ∃ b, ofStringOn base data = .ok b ∧
      Script.Matches Wrapped (getOn b t old) (get (ofString (wrap base data)) t old) := by
  obtain ⟨b, hb, hw⟩ := wrapped_ofStringOn hbase data
  refine ⟨b, hb, ?_⟩
  rw [get_eq_on]
  refine Script.on_sim (P := (· = .read 1)) (fun r _ _ hr h => ?_) (single_ask t ht old) hw
  subst hr
  exact h.read

/-- **Byte by byte** a string decodes as its first node repeated. -/
theorem decodeOn_byteWise {base : Nat} (hbase : 1 < base) (data : Bytes) {t : Ty}
    (ht : byteWise t = true) (old : t.Val) :
    decodeOn base data t old = decode (wrap base data) t old := by
  obtain ⟨b, hb, hmatch⟩ := getOn_wrapped hbase data ht old
  exact decodeOn_eq_decode hb hmatch

/-! ## a vector of bytes -/

omit [Machine] in
theorem length_writeUint64_le (v : BitVec 64) : (writeUint64 v).length ≤ 10 :=
  (Varint.length_le_iff (Option.some_get (isSome_encode_ten v)).symm (by decide)).mpr
    (Nat.lt_trans v.isLt (by decide))

omit [Machine] in
theorem getElem?_wrap {base i : Nat} {data : Bytes} (hi : i < data.length) :
    (wrap base data)[i]? = data[i % base]? := by
  have hmod : i % base < data.length := (Nat.mod_le i base).trans_lt hi
  rw [wrap, List.getElem?_mapIdx, List.getElem?_eq_getElem hi, Option.map_some,
    List.getD_eq_getElem?_getD, List.getElem?_eq_getElem hmod, Option.getD_some]

/-- A `std::vector<uint8_t>`. -/
def byteVector (l : Bytes) (h : l.length < 2 ^ 64) : (Ty.vector .uint8).Obj := ⟨l, h⟩

/-- `<<` on it: how many bytes, and the bytes. -/
theorem serialize_byteVector (l : Bytes) (h : l.length < 2 ^ 64) :
    serialize (.vector .uint8) (byteVector l h) = writeUint64 (BitVec.ofNat 64 l.length) ++ l := by
  have hflat : l.flatMap (serialize .uint8) = l := List.flatMap_singleton' l
  exact congrArg (writeUint64 (BitVec.ofNat 64 l.length) ++ ·) hflat

/-- And `>>` yields the bytes. -/
theorem decode_byteVector (l : Bytes) (h : l.length < 2 ^ 64) :
    decode (writeUint64 (BitVec.ofNat 64 l.length) ++ l) (.vector .uint8) ([] : Bytes) =
      .ok l := by
  have hround := roundTrips (.vector .uint8) (byteVector l h) ([] : Bytes) rfl []
  rw [List.append_nil, serialize_byteVector] at hround
  rw [decode_of_deserialize hround]
  exact congrArg Except.ok (List.map_id l)

omit [Machine] in
theorem wrap_eq_iff {base : Nat} {data : Bytes} :
    wrap base data = data ↔ ∀ i < data.length, data[i]? = data[i % base]? := by
  have hlen : (wrap base data).length = data.length := List.length_mapIdx
  constructor
  · intro h i hi
    rw [← getElem?_wrap hi, h]
  · intro h
    refine List.ext_getElem? fun i => ?_
    by_cases hi : i < data.length
    · rw [getElem?_wrap hi, h i hi]
    · rw [List.getElem?_eq_none (by omega), List.getElem?_eq_none (by omega)]

omit [Machine] in
/-- What lies in the first node is seen as it is. -/
theorem wrap_append {base : Nat} {xs ys : Bytes} (h : xs.length < base) :
    ∃ zs, wrap base (xs ++ ys) = xs ++ zs ∧ zs.length = ys.length := by
  refine ⟨(wrap base (xs ++ ys)).drop xs.length, ?_, ?_⟩
  · have htake : (wrap base (xs ++ ys)).take xs.length = xs := by
      refine List.ext_getElem? fun i => ?_
      by_cases hi : i < xs.length
      · rw [List.getElem?_take, if_pos hi, getElem?_wrap (by rw [List.length_append]; omega),
          Nat.mod_eq_of_lt (by omega), List.getElem?_append_left hi]
      · rw [List.getElem?_take, if_neg hi, List.getElem?_eq_none (by omega)]
    conv => lhs; rw [← List.take_append_drop xs.length (wrap base (xs ++ ys)), htake]
  · rw [List.length_drop, wrap, List.length_mapIdx, List.length_append]
    omega

/-- **A vector of bytes**, written and decoded again through nodes of `base`
bytes, comes back exactly when its encoding repeats itself node by node. -/
theorem decodeOn_byteVector_iff {base : Nat} (hbase : 10 < base) {l : Bytes}
    (h : l.length < 2 ^ 64) {enc : Bytes}
    (henc : enc = serialize (.vector .uint8) (byteVector l h)) :
    decodeOn base enc (.vector .uint8) ([] : Bytes) = .ok l ↔
      ∀ i < enc.length, enc[i]? = enc[i % base]? := by
  rw [serialize_byteVector] at henc
  have hcount := length_writeUint64_le (BitVec.ofNat 64 l.length)
  -- the count lies in the first node, so the wrapped string is that of a vector again
  obtain ⟨zs, hwrap, hzs⟩ :=
    @wrap_append base _ l (show (writeUint64 (BitVec.ofNat 64 l.length)).length < base by omega)
  have hdec : decodeOn base enc (.vector .uint8) ([] : Bytes) = .ok zs := by
    obtain ⟨b, hb, hmatch⟩ := getOn_wrapped (t := .vector .uint8) (show 1 < base by omega) enc rfl
      ([] : Bytes)
    refine (decodeOn_eq_decode hb hmatch).trans ?_
    rw [henc, hwrap, ← hzs]
    exact decode_byteVector zs (by rw [hzs]; exact h)
  rw [hdec, ← wrap_eq_iff, henc, hwrap, List.append_cancel_left_eq]
  exact ⟨Except.ok.inj, congrArg Except.ok⟩

end

/-- Six bytes in nodes of four: the count and the first three, and these again. -/
theorem decodeOn_byteWise_six :
    letI := x86_64
    decodeOn 4 [6, 1, 2, 3, 4, 5, 6] (.vector .uint8) ([] : Bytes) =
      .ok ([1, 2, 3, 6, 1, 2] : Bytes) :=
  let m := x86_64
  @decodeOn_byteWise m 4 (by decide) [6, 1, 2, 3, 4, 5, 6] (.vector .uint8) rfl ([] : Bytes)

/-- Eleven bytes and their count do not fit in a node of eleven. -/
theorem decodeOn_byteVector_iff_eleven :
    letI := x86_64
    decodeOn 11 [11, 0, 1, 2, 3, 4, 5, 6, 7, 8, 9, 10] (.vector .uint8) ([] : Bytes) ≠
      .ok ([0, 1, 2, 3, 4, 5, 6, 7, 8, 9, 10] : Bytes) := by
  let m := x86_64
  intro h
  have hrep := (@decodeOn_byteVector_iff m 11 (by decide) [0, 1, 2, 3, 4, 5, 6, 7, 8, 9, 10]
    (by decide) [11, 0, 1, 2, 3, 4, 5, 6, 7, 8, 9, 10] rfl).mp h
  exact absurd (hrep 11 (by decide)) (by decide)

end Serializer
end XzmjxRpc
