import XzmjxRpc.Rpc.Ty

/-!
# XzmjxRpc.Rpc.Serializer

`Serializer` (`rpc/serializer.h`): `<<` and `>>` on every supported type, and
the round trip between them.

`serialize t o` is what `<<` hands to the byte array, in the default (big)
byte order; `deserialize t old` is `>>` into a variable that holds `old`.  The
round trip is proved once for each kind of type (`RoundTrips`) and follows by
induction on the type.
-/

namespace XzmjxRpc

/-! ## containers -/

/-- `<<` on a container: its size, then its elements in iteration order. -/
def serializeSeq {α : Type} (ser : α → Bytes) (data : List α) : Bytes :=
  writeUint64 (BitVec.ofNat 64 data.length) ++ data.flatMap ser

/-- `>>` into a vector or list: a size, then so many times `T v{}; *this >> v;
data.push_back(v)`. -/
def deserializeSeq {α : Type} (v : Decoder α) (data : List α) : Decoder (List α) := do
  let n ← readUint64
  Reader.iterate (fun data => (data ++ [·]) <$> v) n.toNat data

/-- `>>` into a set: `data.insert(v)`. -/
def deserializeSet {α : Type} [DecidableEq α] (v : Decoder α) (data : Finset α) :
    Decoder (Finset α) := do
  let n ← readUint64
  Reader.iterate (fun data => (insert · data) <$> v) n.toNat data

/-- `>>` into a map: `data[v.first] = v.second`. -/
def deserializeMap {α β : Type} [DecidableEq α] (first : Decoder α) (second : Decoder β)
    (data : Finmap fun _ : α => β) : Decoder (Finmap fun _ : α => β) := do
  let n ← readUint64
  Reader.iterate (fun data => do
    let k ← first
    let v ← second
    pure (data.insert k v)) n.toNat data

/-! ## round trip of a container -/

/-- Decoding into a fresh variable reads exactly what was written for an
object and yields its value. -/
def RoundTrips (I : Interp) (ser : I.Obj → Bytes) (de : I.Val → Decoder I.Val) : Prop :=
  ∀ o old, I.Fresh old → Reader.Reads (de old) (ser o) (I.abs o)

/-- A size prefix reads back as the size. -/
theorem reads_size {α β : Type} {l : List α} (h : l.length < 2 ^ 64) {f : Nat → Decoder β}
    {xs : Bytes} {b : β} (hf : Reader.Reads (f l.length) xs b) :
    Reader.Reads (do let n ← readUint64; f n.toNat)
      (writeUint64 (BitVec.ofNat 64 l.length) ++ xs) b := by
  apply (reads_readUint64 _).bind
  rwa [BitVec.toNat_ofNat, Nat.mod_eq_of_lt h]

theorem foldl_append_map {α β : Type} (f : α → β) (l : List α) (init : List β) :
    l.foldl (fun data c => data ++ [f c]) init = init ++ l.map f := by
  induction l generalizing init with
  | nil => simp
  | cons c l ih => rw [List.foldl_cons, ih, List.map_cons, List.append_assoc, List.singleton_append]

theorem foldl_insert_map {α β : Type} [DecidableEq β] (f : α → β) (l : List α) (init : Finset β) :
    l.foldl (fun data c => insert (f c) data) init = init ∪ (l.map f).toFinset := by
  induction l generalizing init with
  | nil => simp
  | cons c l ih =>
      rw [List.foldl_cons, ih, List.map_cons, List.toFinset_cons, Finset.insert_union,
        Finset.union_insert]

section
variable {α β : Type} {ser : α → Bytes} {v : Decoder β} {f : α → β}

theorem reads_deserializeSeq (h : ∀ c, Reader.Reads v (ser c) (f c)) {l : List α}
    (hl : l.length < 2 ^ 64) :
    Reader.Reads (deserializeSeq v []) (serializeSeq ser l) (l.map f) := by
  have hloop : Reader.Reads (Reader.iterate (fun data => (data ++ [·]) <$> v) l.length [])
      (l.flatMap ser) (l.foldl (fun data c => data ++ [f c]) []) :=
    Reader.Reads.iterate l (fun c _ data => (h c).map (data ++ [·])) []
  rw [foldl_append_map, List.nil_append] at hloop
  exact reads_size hl (f := fun n => Reader.iterate (fun data => (data ++ [·]) <$> v) n []) hloop

theorem reads_deserializeSet [DecidableEq β] (h : ∀ c, Reader.Reads v (ser c) (f c)) {l : List α}
    (hl : l.length < 2 ^ 64) :
    Reader.Reads (deserializeSet v ∅) (serializeSeq ser l) (l.map f).toFinset := by
  have hloop : Reader.Reads (Reader.iterate (fun data => (insert · data) <$> v) l.length ∅)
      (l.flatMap ser) (l.foldl (fun data c => insert (f c) data) (∅ : Finset β)) :=
    Reader.Reads.iterate l (fun c _ data => (h c).map (insert · data)) ∅
  rw [foldl_insert_map, Finset.empty_union] at hloop
  exact reads_size hl (f := fun n => Reader.iterate (fun data => (insert · data) <$> v) n ∅) hloop

end

theorem RoundTrips.seq {I : Interp} {ser : I.Obj → Bytes} {de : I.Val → Decoder I.Val}
    (h : RoundTrips I ser de) :
    RoundTrips I.seq (fun data => serializeSeq ser data.1) (deserializeSeq (de I.init)) := by
  rintro ⟨l, hl⟩ old rfl
  exact reads_deserializeSeq (fun c => h c I.init I.init_fresh) hl

theorem RoundTrips.set {I : Interp} {ser : I.Obj → Bytes} {de : I.Val → Decoder I.Val}
    (h : RoundTrips I ser de) :
    RoundTrips I.set (fun data => serializeSeq ser data.1)
      (let _ := I.decEq; deserializeSet (de I.init)) := by
  rintro ⟨l, hl, -⟩ old rfl
  let := I.decEq
  exact reads_deserializeSet (fun c => h c I.init I.init_fresh) hl

theorem RoundTrips.scalar {α : Type} [DecidableEq α] {a : α} {ser : α → Bytes} {de : Decoder α}
    (h : ∀ v, Reader.Reads de (ser v) v) : RoundTrips (.scalar α a) ser fun _ => de :=
  fun v _ _ => h v

theorem reads_bool (v : Bool) :
    Reader.Reads ((fun b : BitVec 8 => decide (b ≠ 0)) <$> readFint8)
      (writeFint8 (if v then 1 else 0)) v := by
  have h := (reads_readFint8 (if v then 1 else 0)).map fun b : BitVec 8 => decide (b ≠ 0)
  cases v <;> exact h

section
variable {α β : Type} {first : Decoder α} {second : Decoder β}

theorem scans_deserializeSeq (h : Reader.Scans Fault.Thrown first) (data : List α) :
    Reader.Scans Fault.Thrown (deserializeSeq first data) :=
  (scans_readUint64.mono fun _ => .inl).bind fun n =>
    Reader.Scans.iterate (fun data => h.map (data ++ [·])) n.toNat data

theorem scans_deserializeSet [DecidableEq α] (h : Reader.Scans Fault.Thrown first)
    (data : Finset α) : Reader.Scans Fault.Thrown (deserializeSet first data) :=
  (scans_readUint64.mono fun _ => .inl).bind fun n =>
    Reader.Scans.iterate (fun data => h.map (insert · data)) n.toNat data

theorem scans_deserializeMap [DecidableEq α] (h : Reader.Scans Fault.Thrown first)
    (h' : Reader.Scans Fault.Thrown second) (data : Finmap fun _ : α => β) :
    Reader.Scans Fault.Thrown (deserializeMap first second data) :=
  (scans_readUint64.mono fun _ => .inl).bind fun n =>
    Reader.Scans.iterate (fun data => h.bind fun k => h'.bind fun v =>
      Reader.Scans.pure _ (data.insert k v)) n.toNat data

end

section
variable [Machine]

/-! ## every type -/

mutual

/-- `*this << data`. -/
def serialize : (t : Ty) → t.Obj → Bytes
  | .bool, (v : Bool) => writeFint8 (if v then 1 else 0)
  | .float, v => writeFloat .big v
  | .double, v => writeDouble .big v
  | .uint8, v => writeFuint8 v
  | .int8, v => writeFint8 v
  | .uint16, v => writeFuint16 .big v
  | .int16, v => writeFint16 .big v
  | .uint32, v => writeUint32 v
  | .int32, v => writeInt32 v
  | .uint64, v => writeUint64 v
  | .int64, v => writeInt64 v
  | .string, s => writeStringVint s.1
  | .vector t, data => serializeSeq (serialize t) data.1
  | .list t, data => serializeSeq (serialize t) data.1
  | .set t, data => serializeSeq (serialize t) data.1
  | .unorderedSet t, data => serializeSeq (serialize t) data.1
  | .map _ _, data => nomatch data
  | .unorderedMap _ _, data => nomatch data
  | .tuple ts, tp => serializeTuple ts tp

/-- `((*this) << ... << std::get<Index>(t))`. -/
def serializeTuple : (ts : List Ty) → (Ty.interps ts).Obj → Bytes
  | [], _ => []
  | t :: ts, (v, vs) => serialize t v ++ serializeTuple ts vs

end

mutual

/-- `*this >> data`, where `data` holds the second argument. -/
def deserialize : (t : Ty) → t.Val → Decoder t.Val
  | .bool, _ => (fun b : BitVec 8 => decide (b ≠ 0)) <$> readFint8
  | .float, _ => readFloat .big
  | .double, _ => readDouble .big
  | .uint8, _ => readFuint8
  | .int8, _ => readFint8
  | .uint16, _ => readFuint16 .big
  | .int16, _ => readFint16 .big
  | .uint32, _ => readUint32
  | .int32, _ => readInt32
  | .uint64, _ => readUint64
  | .int64, _ => readInt64
  | .string, _ => readStringVint
  | .vector t, data => deserializeSeq (deserialize t t.init) data
  | .list t, data => deserializeSeq (deserialize t t.init) data
  | .set t, data => deserializeSet (deserialize t t.init) data
  | .unorderedSet t, data => deserializeSet (deserialize t t.init) data
  | .map k v, data => deserializeMap (deserialize k k.init) (deserialize v v.init) data
  | .unorderedMap k v, data => deserializeMap (deserialize k k.init) (deserialize v v.init) data
  | .tuple ts, tp => deserializeTuple ts tp

/-- `((*this) >> ... >> std::get<Index>(t))`. -/
def deserializeTuple : (ts : List Ty) → (Ty.interps ts).Val → Decoder (Ty.interps ts).Val
  | [], _ => pure ()
  | t :: ts, (v, vs) => do
      let v ← deserialize t v
      let vs ← deserializeTuple ts vs
      pure (v, vs)

end

/-! ## round trip -/

mutual

/-- **Round trip**: at every type, `>>` into a fresh variable reads exactly the
bytes `<<` wrote for an object, whatever follows them, and yields the object's
value. -/
theorem roundTrips : (t : Ty) → RoundTrips t.interp (serialize t) (deserialize t)
  | .bool => .scalar reads_bool
  | .float => .scalar (reads_readFixed (n := 4) .big)
  | .double => .scalar (reads_readFixed (n := 8) .big)
  | .uint8 => .scalar reads_readFuint8
  | .int8 => .scalar reads_readFint8
  | .uint16 => .scalar (reads_readFixed (n := 2) .big)
  | .int16 => .scalar (reads_readFixed (n := 2) .big)
  | .uint32 => .scalar reads_readUint32
  | .int32 => .scalar reads_readInt32
  | .uint64 => .scalar reads_readUint64
  | .int64 => .scalar reads_readInt64
  | .string => fun s _ _ => reads_readStringVint s.2
  | .vector t => (roundTrips t).seq
  | .list t => (roundTrips t).seq
  | .set t => (roundTrips t).set
  | .unorderedSet t => (roundTrips t).set
  | .map _ _ => fun data => nomatch data
  | .unorderedMap _ _ => fun data => nomatch data
  | .tuple ts => roundTrips_tuple ts

theorem roundTrips_tuple :
    (ts : List Ty) → RoundTrips (Ty.interps ts) (serializeTuple ts) (deserializeTuple ts)
  | [] => fun _ _ _ => Reader.Reads.pure _
  | t :: ts => by
      rintro ⟨v, vs⟩ ⟨old, olds⟩ ⟨hold, holds⟩
      have hv := roundTrips t v old hold
      have hvs := roundTrips_tuple ts vs olds holds
      exact hv.bind (hvs.bind_nil (Reader.Reads.pure _))

end

/-! ## what `>>` can do -/

mutual

/-- At every type `>>` decides on the bytes it takes, and nothing but the want of
data stops it. -/
theorem scans_deserialize :
    (t : Ty) → (old : t.Val) → Reader.Scans Fault.Thrown (deserialize t old)
  | .bool, _ => (Reader.Scans.next thrown_outOfData).map _
  | .float, _ => (scans_readFixed 4 .big).mono fun _ => .inl
  | .double, _ => (scans_readFixed 8 .big).mono fun _ => .inl
  | .uint8, _ => Reader.Scans.next thrown_outOfData
  | .int8, _ => Reader.Scans.next thrown_outOfData
  | .uint16, _ => (scans_readFixed 2 .big).mono fun _ => .inl
  | .int16, _ => (scans_readFixed 2 .big).mono fun _ => .inl
  | .uint32, _ => scans_readUint32.mono fun _ => .inl
  | .int32, _ => (scans_readUint32.mono fun _ => .inl).map _
  | .uint64, _ => scans_readUint64.mono fun _ => .inl
  | .int64, _ => (scans_readUint64.mono fun _ => .inl).map _
  | .string, _ => scans_readStringVint
  | .vector t, data => scans_deserializeSeq (scans_deserialize t t.init) data
  | .list t, data => scans_deserializeSeq (scans_deserialize t t.init) data
  | .set t, data => scans_deserializeSet (scans_deserialize t t.init) data
  | .unorderedSet t, data => scans_deserializeSet (scans_deserialize t t.init) data
  | .map k v, data =>
      scans_deserializeMap (scans_deserialize k k.init) (scans_deserialize v v.init) data
  | .unorderedMap k v, data =>
      scans_deserializeMap (scans_deserialize k k.init) (scans_deserialize v v.init) data
  | .tuple ts, tp => scans_deserializeTuple ts tp

theorem scans_deserializeTuple :
    (ts : List Ty) → (tp : (Ty.interps ts).Val) →
      Reader.Scans Fault.Thrown (deserializeTuple ts tp)
  | [], _ => Reader.Scans.pure _ _
  | t :: ts, (v, vs) => (scans_deserialize t v).bind fun _ =>
      (scans_deserializeTuple ts vs).bind fun _ => Reader.Scans.pure _ _

end

/-- Decoding into a fresh variable the bytes that `<<` wrote for an object,
followed by `r`, yields the object's value and leaves `r`. -/
theorem deserialize_serialize (t : Ty) (o : t.Obj) {old : t.Val} (hold : t.interp.Fresh old)
    (r : Bytes) : deserialize t old (serialize t o ++ r) = .ok (Ty.abs o, r) :=
  roundTrips t o old hold r

end

/-- A vector of (string, set of `int32_t`, `double`) tuples, decoded into an
empty vector with one byte following. -/
theorem deserialize_serialize_nested :
    letI := x86_64
    deserialize (.vector (.tuple [.string, .set .int32, .double])) []
      (serialize (.vector (.tuple [.string, .set .int32, .double]))
        ⟨[(⟨[104, 105], by decide⟩, ⟨[-3#32, 300#32], by decide⟩, 0x3ff0000000000000#64, ())],
          by decide⟩ ++ [7]) =
      .ok ([([104, 105], ([-3#32, 300#32].toFinset : Finset (BitVec 32)),
        0x3ff0000000000000#64, ())], [7]) :=
  @deserialize_serialize x86_64 (.vector (.tuple [.string, .set .int32, .double])) _ _ rfl _

/-! ## the serializer object -/

namespace Serializer

/-- `explicit Serializer(const std::string& data)`. -/
def ofString (data : Bytes) : FlatBuffer Byte := (FlatBuffer.new.write data).rewind

theorem data_ofString (data : Bytes) : (ofString data).data = data := by
  rw [ofString, FlatBuffer.data_rewind, FlatBuffer.data_new_write]

theorem toString_ofString (data : Bytes) : (ofString data).toString = data := by
  rw [ofString, FlatBuffer.toString_rewind, FlatBuffer.data_new_write]

variable [Machine]

/-- `s << o`. -/
def put (s : FlatBuffer Byte) (t : Ty) (o : t.Obj) : FlatBuffer Byte := s.write (serialize t o)

/-- `s >> v`, where `v` holds `old`. -/
def get (s : FlatBuffer Byte) (t : Ty) (old : t.Val) : Except Fault (t.Val × FlatBuffer Byte) :=
  s.run (deserialize t old)

/-- `>>` takes an object off the front of what is left in the buffer. -/
theorem get_of_toString {s : FlatBuffer Byte} {t : Ty} {o : t.Obj} {old : t.Val}
    (hold : t.interp.Fresh old) {rest : Bytes} (h : s.toString = serialize t o ++ rest) :
    ∃ s', get s t old = .ok (Ty.abs o, s') ∧ s'.data = s.data ∧ s'.toString = rest :=
  FlatBuffer.run_of_reads (roundTrips t o old hold) h

/-- `>>` on a fresh copy of `data` decodes `data`, and leaves what the decoder
leaves. -/
theorem get_ofString {data rest : Bytes} {t : Ty} {old v : t.Val}
    (h : deserialize t old data = .ok (v, rest)) :
    ∃ s, get (ofString data) t old = .ok (v, s) ∧ s.data = data ∧ s.toString = rest := by
  obtain ⟨xs, hxs, hreads⟩ := (scans_deserialize t old).reads data v rest h
  obtain ⟨s, hget, hdata, hrest⟩ :=
    FlatBuffer.run_of_reads hreads ((toString_ofString data).trans hxs)
  exact ⟨s, hget, hdata.trans (data_ofString data), hrest⟩

/-- When it throws, it throws for want of data. -/
theorem get_ofString_error {data : Bytes} {t : Ty} {old : t.Val} {e : Fault}
    (h : deserialize t old data = .error e) :
    e.Thrown ∧ get (ofString data) t old = .error e := by
  refine ⟨(scans_deserialize t old).fails data e h, ?_⟩
  rw [get, FlatBuffer.run, toString_ofString, h]
  rfl

/-- `>>` on a string, where `data` starts with one. -/
theorem get_string {data str rest : Bytes} (h : readStringVint data = .ok (str, rest)) :
    ∃ s, get (ofString data) .string ([] : Bytes) = .ok (str, s) ∧ s.data = data ∧
      s.toString = rest :=
  get_ofString (t := .string) h

/-- And where it does not. -/
theorem get_string_error {data : Bytes} (h : ¬ HoldsString data) :
    ∃ e, e.Thrown ∧ get (ofString data) .string ([] : Bytes) = .error e := by
  obtain ⟨e, -, herr⟩ := readStringVint_eq_error h
  exact ⟨e, get_ofString_error (t := .string) herr⟩

end Serializer

end XzmjxRpc
