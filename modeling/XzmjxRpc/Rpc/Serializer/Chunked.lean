import XzmjxRpc.Lib.Script
import XzmjxRpc.Rpc.Serializer
import XzmjxRpc.Utils.ByteArray.Lagging

/-!
# XzmjxRpc.Rpc.Serializer.Chunked

`>>` on the chunked `ByteArray` itself.

`Serializer.get` decodes from a flat buffer.  Here a decoder is the script of
the cursor reads it makes (`ask`), in the order and the sizes of the source and
with the resizes of the strings, and `getOn` makes them on a `ByteArray`; on a
stream the script is the decoder (`on_ask`).

What comes out depends on where the reads end, for one that ends on the border
of a node leaves `m_cur` a node behind.  Inside the first node nothing does,
and `>>` is that of the flat buffer (`decodeOn_of_length_lt`); a string at the
start is read right in any case (`askStringVint_holds`).
-/

namespace XzmjxRpc
namespace Serializer

/-! ## the reads of `>>` -/

/-- What a decoder asks of a buffer. -/
inductive Ask where
  /-- `read(p, n)`. -/
  | read (n : Nat)
  /-- `s.resize(n); read(&s[0], n)`. -/
  | chars (n : Nat)

/-- `read(&ans, sizeof(ans))` of one byte. -/
def askFuint8 : Script Ask Byte (BitVec 8) := do
  let ans ← Script.take (.read 1)
  pure (ans.headD 0)

/-- `v = readFint8()` for a `bool v`. -/
def askBool : Script Ask Byte Bool := do
  let b ← askFuint8
  pure (decide (b ≠ 0))

/-- The loop of `readUint32` and `readUint64`. -/
def askVarint {w : Nat} : (rounds i : Nat) → BitVec w → Script Ask Byte (BitVec w)
  | 0, _, ans => pure ans
  | rounds + 1, i, ans => do
      let b ← askFuint8
      if b &&& 0x80 ≠ 0 then
        askVarint rounds (i + 7) (ans ||| (b &&& 0x7F).setWidth w <<< i)
      else pure (ans ||| b.setWidth w <<< i)

/-- `readUint32()`. -/
def askUint32 : Script Ask Byte (BitVec 32) := askVarint 5 0 0

/-- `readUint64()`. -/
def askUint64 : Script Ask Byte (BitVec 64) := askVarint 10 0 0

/-- `readInt32()`. -/
def askInt32 : Script Ask Byte (BitVec 32) := do
  let v ← askUint32
  pure (decodeZigzag32 v)

/-- `readInt64()`. -/
def askInt64 : Script Ask Byte (BitVec 64) := do
  let v ← askUint64
  pure (decodeZigzag64 v)

/-- `readStringVint()`. -/
def askStringVint : Script Ask Byte Bytes := do
  let len ← askUint64
  Script.take (.chars len.toNat)

/-- `>>` into a vector or list. -/
def askSeq {α : Type} (v : Script Ask Byte α) (data : List α) : Script Ask Byte (List α) := do
  let n ← askUint64
  Script.iterate (fun data => do
    let v ← v
    pure (data ++ [v])) n.toNat data

/-- `>>` into a set. -/
def askSet {α : Type} [DecidableEq α] (v : Script Ask Byte α) (data : Finset α) :
    Script Ask Byte (Finset α) := do
  let n ← askUint64
  Script.iterate (fun data => do
    let v ← v
    pure (insert v data)) n.toNat data

/-- `>>` into a map. -/
def askMap {α β : Type} [DecidableEq α] (first : Script Ask Byte α) (second : Script Ask Byte β)
    (data : Finmap fun _ : α => β) : Script Ask Byte (Finmap fun _ : α => β) := do
  let n ← askUint64
  Script.iterate (fun data => do
    let k ← first
    let v ← second
    pure (data.insert k v)) n.toNat data

section
variable [Machine]

/-- `readFuint16()` and the other fixed widths. -/
def askFixed (n : Nat) (e : Endian) : Script Ask Byte (BitVec (8 * n)) := do
  let ans ← Script.take (.read n)
  pure (endianCastByType (Machine.native.value n ans) e)

mutual

/-- `*this >> data`, read by read. -/
def ask : (t : Ty) → t.Val → Script Ask Byte t.Val
  | .bool, _ => askBool
  | .float, _ => askFixed 4 .big
  | .double, _ => askFixed 8 .big
  | .uint8, _ => askFuint8
  | .int8, _ => askFuint8
  | .uint16, _ => askFixed 2 .big
  | .int16, _ => askFixed 2 .big
  | .uint32, _ => askUint32
  | .int32, _ => askInt32
  | .uint64, _ => askUint64
  | .int64, _ => askInt64
  | .string, _ => askStringVint
  | .vector t, data => askSeq (ask t t.init) data
  | .list t, data => askSeq (ask t t.init) data
  | .set t, data => askSet (ask t t.init) data
  | .unorderedSet t, data => askSet (ask t t.init) data
  | .map k v, data => askMap (ask k k.init) (ask v v.init) data
  | .unorderedMap k v, data => askMap (ask k k.init) (ask v v.init) data
  | .tuple ts, tp => askTuple ts tp

/-- `((*this) >> ... >> std::get<Index>(t))`, read by read. -/
def askTuple : (ts : List Ty) → (Ty.interps ts).Val → Script Ask Byte (Ty.interps ts).Val
  | [], _ => pure ()
  | t :: ts, (v, vs) => do
      let v ← ask t v
      let vs ← askTuple ts vs
      pure (v, vs)

end

end

/-! ## on a stream -/

section
variable [Machine]

/-- Answers from a stream of bytes. -/
def fromStream : Ask → Decoder Bytes
  | .read n => Reader.take FlatBuffer.outOfData n
  | .chars n => readChars n

theorem on_askFuint8 : askFuint8.on fromStream = readFuint8 := by
  funext s
  cases s <;> rfl

theorem on_askVarint {w : Nat} (rounds i : Nat) (ans : BitVec w) :
    (askVarint rounds i ans).on fromStream = Varint.read readFuint8 rounds i ans := by
  induction rounds generalizing i ans with
  | zero => rfl
  | succ rounds ih =>
      rw [askVarint, Varint.read, Script.on_bind, on_askFuint8]
      refine congrArg (readFuint8 >>= ·) (funext fun b => ?_)
      split
      · exact ih _ _
      · rfl

theorem on_askBool :
    askBool.on fromStream = (fun b : BitVec 8 => decide (b ≠ 0)) <$> readFint8 := by
  rw [askBool, Script.on_map, on_askFuint8]
  rfl

theorem on_askUint32 : askUint32.on fromStream = readUint32 := on_askVarint 5 0 0

theorem on_askUint64 : askUint64.on fromStream = readUint64 := on_askVarint 10 0 0

theorem on_askInt32 : askInt32.on fromStream = readInt32 := by
  rw [askInt32, Script.on_map, on_askUint32]
  rfl

theorem on_askInt64 : askInt64.on fromStream = readInt64 := by
  rw [askInt64, Script.on_map, on_askUint64]
  rfl

theorem on_askStringVint : askStringVint.on fromStream = readStringVint := by
  rw [askStringVint, Script.on_bind, on_askUint64]
  exact congrArg (readUint64 >>= ·) (funext fun len =>
    Script.on_take fromStream (.chars len.toNat))

/-- A container read by read, when a round of its loop is. -/
theorem on_container {β : Type} {f : β → Script Ask Byte β} {g : β → Decoder β}
    (h : ∀ b, (f b).on fromStream = g b) (data : β) :
    (do let n ← askUint64; Script.iterate f n.toNat data : Script Ask Byte β).on fromStream =
      (do let n ← readUint64; Reader.iterate g n.toNat data) := by
  rw [Script.on_bind, on_askUint64]
  refine congrArg (readUint64 >>= ·) (funext fun n => ?_)
  rw [Script.on_iterate, funext h]

section
variable {α β : Type} {first : Script Ask Byte α} {second : Script Ask Byte β} {v : Decoder α}
  {w : Decoder β}

theorem on_askSeq (h : first.on fromStream = v) (data : List α) :
    (askSeq first data).on fromStream = deserializeSeq v data :=
  on_container (fun data => by rw [Script.on_map, h]) data

theorem on_askSet [DecidableEq α] (h : first.on fromStream = v) (data : Finset α) :
    (askSet first data).on fromStream = deserializeSet v data :=
  on_container (fun data => by rw [Script.on_map, h]) data

theorem on_askMap [DecidableEq α] (h : first.on fromStream = v) (h' : second.on fromStream = w)
    (data : Finmap fun _ : α => β) :
    (askMap first second data).on fromStream = deserializeMap v w data :=
  on_container (fun data => by
    rw [Script.on_bind, h]
    refine congrArg (v >>= ·) (funext fun k => ?_)
    rw [Script.on_bind, h']
    rfl) data

end

theorem on_askFixed (n : Nat) (e : Endian) : (askFixed n e).on fromStream = readFixed n e := by
  rw [askFixed, Script.on_bind, Script.on_take]
  rfl

mutual

/-- **On a stream** the reads of `>>` are its decoder. -/
theorem on_ask : (t : Ty) → (old : t.Val) → (ask t old).on fromStream = deserialize t old
  | .bool, _ => on_askBool
  | .float, _ => on_askFixed 4 .big
  | .double, _ => on_askFixed 8 .big
  | .uint8, _ => on_askFuint8
  | .int8, _ => on_askFuint8
  | .uint16, _ => on_askFixed 2 .big
  | .int16, _ => on_askFixed 2 .big
  | .uint32, _ => on_askUint32
  | .int32, _ => on_askInt32
  | .uint64, _ => on_askUint64
  | .int64, _ => on_askInt64
  | .string, _ => on_askStringVint
  | .vector t, data => on_askSeq (on_ask t t.init) data
  | .list t, data => on_askSeq (on_ask t t.init) data
  | .set t, data => on_askSet (on_ask t t.init) data
  | .unorderedSet t, data => on_askSet (on_ask t t.init) data
  | .map k v, data => on_askMap (on_ask k k.init) (on_ask v v.init) data
  | .unorderedMap k v, data => on_askMap (on_ask k k.init) (on_ask v v.init) data
  | .tuple ts, tp => on_askTuple ts tp

theorem on_askTuple : (ts : List Ty) → (tp : (Ty.interps ts).Val) →
    (askTuple ts tp).on fromStream = deserializeTuple ts tp
  | [], _ => rfl
  | t :: ts, (v, vs) => by
      rw [askTuple, deserializeTuple, Script.on_bind, on_ask t v]
      refine congrArg (deserialize t v >>= ·) (funext fun v => ?_)
      rw [Script.on_bind, on_askTuple ts vs]
      rfl

end

end

/-! ## on a buffer -/

section
variable [Machine]

/-- Answers from a flat buffer. -/
def fromFlat : Ask → StateT (FlatBuffer Byte) (Except Fault) Bytes
  | .read n => fun f => f.read n
  | .chars n => fun f => do
      resizeFor n (f.data.length - f.position)
      f.read n

/-- Answers from a chunked buffer. -/
def fromChunks : Ask → StateT (ByteArray Byte) (Except Fault) Bytes
  | .read n => fun b => b.read n
  | .chars n => fun b => do
      resizeFor n b.getReadSize
      b.read n

/-- Where as much is left in both buffers, characters match where a read does. -/
theorem matches_chars {R : ByteArray Byte → FlatBuffer Byte → Prop} {b : ByteArray Byte}
    {f : FlatBuffer Byte} {n : Nat} (hleft : b.getReadSize = f.data.length - f.position)
    (h : Script.Matches R (b.read n) (f.read n)) :
    Script.Matches R (fromChunks (.chars n) b) (fromFlat (.chars n) f) := by
  change Script.Matches R (do resizeFor n b.getReadSize; b.read n)
    (do resizeFor n (f.data.length - f.position); f.read n)
  rw [hleft]
  cases resizeFor n (f.data.length - f.position) with
  | error e => exact .error e
  | ok _ => exact h

/-- A flat buffer hands out its cells as the stream of what it has left. -/
theorem fromStream_sim {data : Bytes} (r : Ask) (s : Bytes) (f : FlatBuffer Byte)
    (hf : f.toString = s ∧ f.data = data) :
    Script.Matches (fun s (f : FlatBuffer Byte) => f.toString = s ∧ f.data = data)
      (fromStream r s) (fromFlat r f) := by
  obtain ⟨rfl, rfl⟩ := hf
  have hlen : f.toString.length = f.data.length - f.position := List.length_drop
  have hread (n : Nat) : Script.Matches
      (fun s (g : FlatBuffer Byte) => g.toString = s ∧ g.data = f.data)
      (Reader.take FlatBuffer.outOfData n f.toString) (f.read n) := by
    unfold FlatBuffer.read Reader.take
    by_cases hn : f.data.length - f.position < n
    · rw [dif_pos hn, if_pos (by omega)]
      exact .error _
    · rw [dif_neg hn, if_neg (by omega)]
      exact .ok ⟨List.drop_drop.symm, rfl⟩
  cases r with
  | read n => exact hread n
  | chars n =>
      change Script.Matches _
        (do resizeFor n f.toString.length; Reader.take FlatBuffer.outOfData n f.toString)
        (do resizeFor n (f.data.length - f.position); f.read n)
      rw [hlen]
      cases resizeFor n (f.data.length - f.position) with
      | error e => exact .error e
      | ok _ => exact hread n

/-- To read from a flat buffer is to take from that stream. -/
theorem run_on {α : Type} (m : Script Ask Byte α) (f : FlatBuffer Byte) :
    f.run (m.on fromStream) = m.on fromFlat f := by
  have hrel : f.toString = f.toString ∧ f.data = f.data := ⟨rfl, rfl⟩
  have hsim := Script.on_sim (P := fun _ => True) (fun r s g _ => fromStream_sim r s g)
    m.reads_true hrel
  unfold FlatBuffer.run
  generalize m.on fromStream f.toString = r at hsim ⊢
  generalize m.on fromFlat f = r' at hsim ⊢
  cases hsim with
  | error e => rfl
  | @ok a s g hg =>
      obtain ⟨rfl, hdata⟩ := hg
      have hlen : g.toString.length = g.data.length - g.position := List.length_drop
      have hpos := g.position_le
      have hg : f.setPosition (f.data.length - g.toString.length) (Nat.sub_le _ _) = g := by
        refine FlatBuffer.ext hdata.symm ?_
        show f.data.length - g.toString.length = g.position
        rw [hdata] at hlen hpos
        omega
      exact congrArg (fun g => Except.ok (a, g)) hg

/-- `s >> v` on the chunked buffer, where `v` holds `old`. -/
def getOn (b : ByteArray Byte) (t : Ty) (old : t.Val) : Except Fault (t.Val × ByteArray Byte) :=
  (ask t old).on fromChunks b

/-- `>>` on a flat buffer, read by read. -/
theorem get_eq_on (f : FlatBuffer Byte) (t : Ty) (old : t.Val) :
    get f t old = (ask t old).on fromFlat f := by
  rw [get, ← on_ask, run_on]

end

/-- `explicit Serializer(const std::string& data)`, with nodes of `base`
bytes. -/
def ofStringOn (base : Nat) (data : Bytes) : Except Fault (ByteArray Byte) := do
  let b ← (ByteArray.new base).write data
  b.setPosition 0

/-- The constructor returns: the buffer holds the data and stands at its start. -/
theorem ofStringOn_refines {base : Nat} (hbase : 0 < base) (data : Bytes) :
    ∃ b, ofStringOn base data = .ok b ∧ b.Refines (ofString data) ∧ b.baseSize = base := by
  obtain ⟨b, hwrite, href⟩ :=
    ByteArray.write_refines (ByteArray.new_refines (α := Byte) hbase) data
  obtain ⟨b', hset, href'⟩ := ByteArray.setPosition_refines href (Nat.zero_le _)
  refine ⟨b', ?_, href', ?_⟩
  · rw [ofStringOn, hwrite]
    exact hset
  · rw [ByteArray.setPosition_baseSize hset,
      (ByteArray.write_wf (ByteArray.new_wf hbase) hwrite).2]
    rfl

/-- The data fills the chain to its end exactly when it is whole nodes. -/
theorem capacity_ofStringOn {base : Nat} (hbase : 0 < base) {data : Bytes} (hne : data ≠ [])
    {b : ByteArray Byte} (hb : ofStringOn base data = .ok b) :
    b.capacity = data.length ↔ base ∣ data.length := by
  have hnew := ByteArray.new_wf (α := Byte) hbase
  obtain ⟨b₁, hwrite, hw, -, hbase₁, -, -, hnodes, -⟩ := ByteArray.write_spec hnew hne
  have hset : b₁.setPosition 0 = .ok b := by
    rw [ofStringOn, hwrite] at hb
    exact hb
  obtain ⟨-, -, -, hcap, -⟩ := ByteArray.setPosition_inv hw.lags hset
  have hlen : b.capacity = base * max 1 (data.length ⌈/⌉ base) := by
    rw [hcap, hw.capacity_eq, hbase₁, hnodes]
    simp [ByteArray.new]
  have hpos := List.length_pos_iff.mpr hne
  rw [hlen]
  constructor
  · intro h
    exact ⟨_, h.symm⟩
  · rintro ⟨k, hk⟩
    have hk0 : 0 < k := by
      rcases Nat.eq_zero_or_pos k with rfl | hk0
      · omega
      · exact hk0
    rw [hk, Nat.ceilDiv_eq_add_pred_div, Nat.add_sub_assoc hbase, Nat.mul_add_div hbase,
      Nat.div_eq_of_lt (by omega), Nat.add_zero, Nat.max_eq_right hk0]

/-! ## one read -/

/-- The chunked `b` stands where the flat `f` does, with its `m_cur` `lag`
nodes behind. -/
structure Tracks (b : ByteArray Byte) (lag : Nat) (f : FlatBuffer Byte) : Prop where
  lagging : b.Lagging lag
  size : f.data.length = b.size
  position : f.position = b.position

theorem Tracks.of_refines {b : ByteArray Byte} {f : FlatBuffer Byte} (h : b.Refines f) :
    Tracks b 0 f :=
  ⟨h.wf.lagging, by rw [← h.content, h.wf.length_content], h.position.symm⟩

theorem Tracks.left_eq {b : ByteArray Byte} {lag : Nat} {f : FlatBuffer Byte}
    (h : Tracks b lag f) : b.getReadSize = f.data.length - f.position := by
  rw [h.size, h.position]
  exact ByteArray.sizeSub_of_le h.lagging.position_le

/-- Where the chunked buffer has at its lag what the flat one has at its
position, a read of both matches. -/
theorem Tracks.read {b : ByteArray Byte} {lag n : Nat} {f : FlatBuffer Byte} (h : Tracks b lag f)
    (hcur : n = 0 → lag = 0 → b.position < b.capacity)
    (hbytes : b.position + n ≤ b.size →
      ByteArray.behind b.baseSize b.cells lag b.position n = (f.data.drop b.position).take n) :
    Script.Matches (fun b' f' => Tracks b' (lag + ByteArray.staleStep b.baseSize b.position n) f' ∧
        b'.position = b.position + n ∧ b'.baseSize = b.baseSize ∧ b'.capacity = b.capacity ∧
        b'.nodes = b.nodes ∧ f'.data = f.data)
      (b.read n) (f.read n) := by
  have hsize := h.size
  have hpos := h.position
  have hread : b.getReadSize = b.size - b.position :=
    ByteArray.sizeSub_of_le h.lagging.position_le
  have hle := h.lagging.position_le
  unfold FlatBuffer.read
  by_cases hn : b.size - b.position < n
  · rw [ByteArray.read, hread, if_pos hn, dif_pos (by omega)]
    exact .error _
  · have hfit : b.position + n ≤ b.size := by omega
    obtain ⟨b', hb', hlag, hpos', hbase, hsize', hcap, hnodes⟩ :=
      ByteArray.read_spec h.lagging hfit hcur
    have hout : f.toString.take n = (f.data.drop b.position).take n := by
      rw [FlatBuffer.toString, hpos]
    rw [hb', dif_neg (by omega), hbytes hfit, hout]
    refine .ok ⟨⟨hlag, hsize.trans hsize'.symm, ?_⟩, hpos', hbase, hcap, hnodes, rfl⟩
    rw [hpos', ← hpos]
    rfl

/-- The chunked `b` holds what the flat `f` does and stands where it does,
wherever its `m_cur` is. -/
structure Holds (b : ByteArray Byte) (f : FlatBuffer Byte) : Prop where
  lags : ∃ lag, b.Lags lag
  content : b.content = f.data
  position : b.position = f.position

namespace Holds

variable {b : ByteArray Byte} {f : FlatBuffer Byte}

/-- `toString()` before the end of the chain. -/
theorem toString_eq (h : Holds b f) (hp : b.position < b.capacity) :
    b.toString = .ok f.toString := by
  obtain ⟨lag, hlags⟩ := h.lags
  have hle := hlags.position_le
  rw [ByteArray.toString, ByteArray.readAt_lags hlags (by rw [hlags.getReadSize_eq]; omega) hp,
    hlags.getReadSize_eq, FlatBuffer.toString, ← h.content, ← h.position, ByteArray.content,
    List.drop_take]

/-- And at its end. -/
theorem toString_end (h : Holds b f) (hp : b.position = b.capacity) :
    b.toString = .error .nullNode := by
  obtain ⟨lag, hlags⟩ := h.lags
  exact hlags.toString_end hp.ge

/-- `reset()` and then `toString()`: all the data. -/
theorem reset_toString (h : Holds b f) :
    ∃ b', b.setPosition 0 = .ok b' ∧ b'.toString = .ok f.data := by
  obtain ⟨lag, hlags⟩ := h.lags
  obtain ⟨b', hset, hlags', hpos, hsize, hcap, hb, hcells⟩ :=
    ByteArray.setPosition_lags hlags 0 (Nat.zero_le _)
  have hcap0 : 0 < b'.capacity := by
    rw [hlags'.capacity_eq]
    exact Nat.mul_pos hlags'.base_pos hlags'.nodes_pos
  have hcontent : b'.content = f.data := by
    rw [← h.content, ByteArray.content, ByteArray.content, hcells, hsize, Nat.max_zero]
  have hholds : Holds b' (f.setPosition 0 (Nat.zero_le _)) := ⟨⟨_, hlags'⟩, hcontent, hpos⟩
  exact ⟨b', hset, hholds.toString_eq (by omega)⟩

end Holds

/-- **A read** of a buffer that refines is right; what it may put wrong is `m_cur`. -/
theorem read_holds {b : ByteArray Byte} {f : FlatBuffer Byte} (h : b.Refines f) {n : Nat}
    (hcur : n = 0 → b.position < b.capacity) :
    Script.Matches (fun b' f' => b'.Lags (ByteArray.staleStep b.baseSize b.position n) ∧
        Holds b' f' ∧ b'.size = b.size ∧ b'.position = b.position + n ∧ b'.baseSize = b.baseSize ∧
        b'.capacity = b.capacity ∧ f'.data = f.data)
      (b.read n) (f.read n) := by
  have hbytes (hfit : b.position + n ≤ b.size) :
      ByteArray.behind b.baseSize b.cells 0 b.position n = (f.data.drop b.position).take n := by
    rw [← h.content, ByteArray.take_drop_content hfit, ByteArray.behind, Nat.zero_mul,
      Nat.sub_zero]
  refine ((Tracks.of_refines h).read (fun hn _ => hcur hn) hbytes).mono ?_
  rintro b' f' ⟨ht, hpos, hb, hc, hnodes, hdata⟩
  have hsize : b'.size = b.size := by rw [← ht.size, hdata, (Tracks.of_refines h).size]
  have hlag := ht.lagging
  rw [Nat.zero_add] at hlag
  have hlags : b'.Lags (ByteArray.staleStep b.baseSize b.position n) :=
    ⟨hlag, by rw [hnodes]; exact h.wf.nodes_pos⟩
  refine ⟨hlags, ⟨⟨_, hlags⟩, ?_, ht.position.symm⟩, hsize, hpos, hb, hc, hdata⟩
  rw [hdata, ← h.content, ByteArray.content, ByteArray.content, ByteArray.cells, ByteArray.cells,
    hnodes, hsize]

/-- One that does not end on a border keeps the refinement. -/
theorem read_clean {b : ByteArray Byte} {f : FlatBuffer Byte} (h : b.Refines f) {n : Nat}
    (hcur : n = 0 → b.position < b.capacity)
    (hclean : b.position + n ≤ b.size → ¬ ByteArray.endsStale b.baseSize b.position n) :
    Script.Matches (fun b' f' => b'.Refines f' ∧ b'.position = b.position + n ∧
        b'.baseSize = b.baseSize ∧ b'.capacity = b.capacity ∧ f'.data = f.data)
      (b.read n) (f.read n) := by
  refine (read_holds h hcur).mono ?_
  rintro b' f' ⟨hlags, hholds, hsize, hpos, hrest⟩
  have hfit := hlags.position_le
  rw [ByteArray.staleStep, if_neg (hclean (by omega))] at hlags
  exact ⟨⟨hlags.wf, hholds.content, hholds.position⟩, hpos, hrest⟩

/-- Nothing read inside the first node ends on its border. -/
theorem not_endsStale_of_lt {base q n : Nat} (h : q + n < base) :
    ¬ ByteArray.endsStale base q n := by
  rintro ⟨hn, -, hmod⟩
  rw [Nat.mod_eq_of_lt h] at hmod
  omega

theorem baseSize_le_capacity {b : ByteArray Byte} (h : b.WF) : b.baseSize ≤ b.capacity := by
  rw [h.capacity_eq]
  exact Nat.le_mul_of_pos_right _ h.nodes_pos

/-! ## inside the first node -/

/-- The flat buffer `f`, all of it inside the first node of `b`, whose nodes
have `base` bytes. -/
structure Small (base : Nat) (b : ByteArray Byte) (f : FlatBuffer Byte) : Prop
    extends b.Refines f where
  base_eq : b.baseSize = base
  size_lt : f.data.length < base

namespace Small

variable {base : Nat} {b : ByteArray Byte} {f : FlatBuffer Byte}

/-- The position is before the end of the chain. -/
theorem position_lt (h : Small base b f) : b.position < b.capacity := by
  have hsize := (Tracks.of_refines h.toRefines).size
  have hlt := h.size_lt
  have hle := h.wf.position_le
  have hcap := baseSize_le_capacity h.wf
  rw [h.base_eq] at hcap
  omega

theorem read (h : Small base b f) (n : Nat) :
    Script.Matches (Small base) (b.read n) (f.read n) := by
  have hsize := (Tracks.of_refines h.toRefines).size
  have hlt := h.size_lt
  have hbase := h.base_eq
  refine (read_clean h.toRefines (fun _ => h.position_lt)
    fun hfit => not_endsStale_of_lt (by omega)).mono ?_
  rintro b' f' ⟨href, -, hb, -, hdata⟩
  exact ⟨href, hb.trans hbase, by rw [hdata]; exact hlt⟩

/-- As many bytes are left in both. -/
theorem left_eq (h : Small base b f) : b.getReadSize = f.data.length - f.position :=
  (Tracks.of_refines h.toRefines).left_eq

/-- Scripts match. -/
theorem on [Machine] {α : Type} (h : Small base b f) (m : Script Ask Byte α) :
    Script.Matches (Small base) (m.on fromChunks b) (m.on fromFlat f) :=
  Script.on_sim (P := fun _ => True) (fun r _ _ _ h =>
    match r with
    | .read n => h.read n
    | .chars n => matches_chars h.left_eq (h.read n)) m.reads_true h

/-- `setPosition(0)`. -/
theorem rewind (h : Small base b f) :
    ∃ b', b.setPosition 0 = .ok b' ∧ Small base b' f.rewind := by
  obtain ⟨b', hset, href⟩ := ByteArray.setPosition_refines h.toRefines (Nat.zero_le _)
  exact ⟨b', hset, href, (ByteArray.setPosition_baseSize hset).trans h.base_eq, h.size_lt⟩

/-- `toString()`. -/
theorem toString (h : Small base b f) : b.toString = .ok f.toString :=
  Holds.toString_eq ⟨⟨0, h.wf.lags⟩, h.content, h.position⟩ h.position_lt

end Small

/-! ## a string at the start -/

section
variable [Machine]

/-- One byte before the last of the first node. -/
theorem askFuint8_clean {b : ByteArray Byte} {f : FlatBuffer Byte} (h : b.Refines f)
    (hlt : b.position + 1 < b.baseSize) :
    Script.Matches (fun b' f' => b'.Refines f' ∧ b'.position = b.position + 1 ∧
        b'.baseSize = b.baseSize ∧ b'.capacity = b.capacity ∧ f'.data = f.data)
      (askFuint8.on fromChunks b) (askFuint8.on fromFlat f) := by
  refine Script.Matches.bind ?_ fun ans b' f' h' => .ok h'
  rw [Script.on_take, Script.on_take]
  exact read_clean h (fun hn => absurd hn (by decide)) fun _ => not_endsStale_of_lt hlt

/-- A number that ends before the border of the first node. -/
theorem askVarint_clean {w : Nat} (rounds i : Nat) (ans : BitVec w) {b : ByteArray Byte}
    {f : FlatBuffer Byte} (h : b.Refines f) (hlt : b.position + rounds < b.baseSize) :
    Script.Matches (fun b' f' => b'.Refines f' ∧ b'.position ≤ b.position + rounds ∧
        b'.baseSize = b.baseSize ∧ b'.capacity = b.capacity ∧ f'.data = f.data)
      ((askVarint rounds i ans).on fromChunks b) ((askVarint rounds i ans).on fromFlat f) := by
  induction rounds generalizing i ans b f with
  | zero => exact .ok ⟨h, Nat.le_refl _, rfl, rfl, rfl⟩
  | succ rounds ih =>
      refine (askFuint8_clean h (by omega)).bind fun byte b₁ f₁ h₁ => ?_
      obtain ⟨href, hpos, hb, hcap, hdata⟩ := h₁
      split
      · refine (ih _ _ href (by omega)).mono fun b₂ f₂ h₂ => ?_
        obtain ⟨href₂, hpos₂, hb₂, hcap₂, hdata₂⟩ := h₂
        exact ⟨href₂, by omega, hb₂.trans hb, hcap₂.trans hcap, hdata₂.trans hdata⟩
      · exact .ok ⟨href, by omega, hb, hcap, hdata⟩

/-- **A string** at the start of a buffer is read right, of whatever length. -/
theorem askStringVint_holds {b : ByteArray Byte} {f : FlatBuffer Byte} (h : b.Refines f)
    (h0 : b.position = 0) (hbase : 10 < b.baseSize) :
    Script.Matches (fun b' f' => Holds b' f' ∧ b'.capacity = b.capacity ∧ f'.data = f.data)
      (askStringVint.on fromChunks b) (askStringVint.on fromFlat f) := by
  refine (askVarint_clean 10 0 (0 : BitVec 64) h (by omega)).bind fun len b₁ f₁ h₁ => ?_
  obtain ⟨href, hpos, hb, hcap, hdata⟩ := h₁
  have hle := baseSize_le_capacity h.wf
  rw [Script.on_take, Script.on_take]
  refine (matches_chars (Tracks.of_refines href).left_eq
    (read_holds href fun _ => by omega)).mono ?_
  rintro b₂ f₂ ⟨-, hholds, -, -, -, hcap₂, hdata₂⟩
  exact ⟨hholds, hcap₂.trans hcap, hdata₂.trans hdata⟩

/-! ## a value decoded from a string -/

/-- `Serializer s(data); s >> v`, where `v` holds `old`. -/
def decodeOn (base : Nat) (data : Bytes) (t : Ty) (old : t.Val) : Except Fault t.Val := do
  let b ← ofStringOn base data
  let (v, _) ← getOn b t old
  pure v

/-- The same on a flat buffer. -/
def decode (data : Bytes) (t : Ty) (old : t.Val) : Except Fault t.Val := do
  let (v, _) ← get (ofString data) t old
  pure v

/-- Two buffers on which `>>` matches decode to the same. -/
theorem decodeOn_eq_decode {R : ByteArray Byte → FlatBuffer Byte → Prop} {base : Nat}
    {data data' : Bytes} {t : Ty} {old : t.Val} {b : ByteArray Byte}
    (hb : ofStringOn base data = .ok b)
    (h : Script.Matches R (getOn b t old) (get (ofString data') t old)) :
    decodeOn base data t old = decode data' t old := by
  rw [decodeOn, hb, decode]
  change (getOn b t old >>= fun p => pure p.1) = (get (ofString data') t old >>= fun p => pure p.1)
  generalize getOn b t old = r at h ⊢
  generalize get (ofString data') t old = r' at h ⊢
  cases h with
  | ok _ => rfl
  | error e => rfl

/-- Inside the first node `>>` matches that of the flat buffer. -/
theorem getOn_small {base : Nat} {data : Bytes} (h : data.length < base) (t : Ty) (old : t.Val) :
    ∃ b, ofStringOn base data = .ok b ∧
      Script.Matches (Small base) (getOn b t old) (get (ofString data) t old) := by
  obtain ⟨b, hb, href, hbase⟩ := ofStringOn_refines (Nat.zero_lt_of_lt h) data
  have hsmall : Small base b (ofString data) := ⟨href, hbase, by rwa [data_ofString]⟩
  refine ⟨b, hb, ?_⟩
  rw [get_eq_on]
  exact hsmall.on (ask t old)

/-- **Inside the first node** a string decodes as from a flat buffer, to a
value of any type or to the same exception. -/
theorem decodeOn_of_length_lt {base : Nat} {data : Bytes} (h : data.length < base) (t : Ty)
    (old : t.Val) : decodeOn base data t old = decode data t old := by
  obtain ⟨b, hb, hmatch⟩ := getOn_small h t old
  exact decodeOn_eq_decode hb hmatch

theorem decode_of_deserialize {data rest : Bytes} {t : Ty} {old v : t.Val}
    (h : deserialize t old data = .ok (v, rest)) : decode data t old = .ok v := by
  obtain ⟨s, hget, -⟩ := get_ofString h
  rw [decode, hget]
  rfl

end

/-- A string of two characters in a node of eight bytes. -/
theorem decodeOn_of_length_lt_string :
    letI := x86_64
    decodeOn 8 [2, 104, 105] .string ([] : Bytes) = .ok ([104, 105] : Bytes) :=
  let m := x86_64
  @decodeOn_of_length_lt m 8 [2, 104, 105] (by decide) .string ([] : Bytes)

end Serializer
end XzmjxRpc
