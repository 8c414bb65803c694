import XzmjxRpc.Rpc.Serializer.Chunked
import XzmjxRpc.Utils.ByteArray.Positional

/-!
# XzmjxRpc.Rpc.Serializer.Safe

`>>` follows no null node.

`read` uses `m_cur` before it looks at the size, and `m_cur` is null when a
read has taken the last node of the chain whole.  The one read of no bytes
that `>>` makes is that of an empty string's characters, and it comes after a
read of one byte, which never takes a node whole when nodes are larger.
-/

namespace XzmjxRpc
namespace Serializer

/-! ## no null node -/

/-- `m_cur` of a buffer in use, of nodes of `base` bytes, is not null. -/
structure Ready (base : Nat) (b : ByteArray Byte) : Prop where
  used : ByteArray.Used base b
  cur : b.cur ≠ none

/-- Where nothing is read, `m_cur` must not be null; where one byte is, it is
not null afterwards, for at the end of the chain it stays behind. -/
theorem read_of_used {base : Nat} (hbase : 1 < base) {b : ByteArray Byte}
    (h : ByteArray.Used base b) {n : Nat} (hcur : n = 0 → b.cur ≠ none) :
    (∃ xs b', b.read n = .ok (xs, b') ∧ ByteArray.Used base b' ∧ (n = 1 → b'.cur ≠ none)) ∨
      b.read n = .error FlatBuffer.outOfData := by
  obtain ⟨lag, hlags⟩ := h.lags (Nat.zero_lt_of_lt hbase)
  obtain rfl := h.baseSize (Nat.zero_lt_of_lt hbase)
  by_cases hn : b.position + n ≤ b.size
  · have hend (h0 : n = 0) (hlag : lag = 0) : b.position < b.capacity := by
      have hsome := mt hlags.cur_none_iff.mpr (hcur h0)
      have hle := hlags.size_le
      by_contra hc
      exact hsome ⟨hlag, by omega⟩
    obtain ⟨b', hread, hlag', hpos', -, -, hcap, -⟩ :=
      ByteArray.read_spec hlags.toLagging hn hend
    obtain ⟨ops, hrun⟩ := h
    have hstep : ByteArray.UseStep b (.read n) b' := ⟨_, hread⟩
    refine .inl ⟨_, b', hread, ⟨_, hrun.snoc hstep⟩, ?_⟩
    rintro rfl hnone
    -- the position is at the end of the chain, so the byte was the last of a node
    obtain ⟨h0, hp⟩ := hlag'.cur_none_iff.mp hnone
    have hstale : ByteArray.endsStale b.baseSize b.position 1 := by
      refine ⟨Nat.one_pos, hbase, ?_⟩
      rw [← hpos', hp, hcap, hlags.capacity_eq, Nat.mul_mod_right]
    rw [ByteArray.staleStep, if_pos hstale] at h0
    omega
  · exact .inr (ByteArray.read_of_size_lt hlags (by omega))

/-- A buffer made of a string is one in use. -/
theorem used_ofStringOn {base : Nat} {data : Bytes} {b : ByteArray Byte}
    (h : ofStringOn base data = .ok b) : ByteArray.Used base b := by
  unfold ofStringOn at h
  cases hwrite : (ByteArray.new base).write data with
  | error e =>
      rw [hwrite] at h
      cases h
  | ok b₁ =>
      rw [hwrite] at h
      have hfst : ByteArray.UseStep (.new base) (.write data) b₁ := hwrite
      have hsnd : ByteArray.UseStep b₁ (.setPosition 0) b := h
      exact ⟨_, (Lts.Run.single hfst).snoc hsnd⟩

section
variable [Machine]

/-- What a script does from such a buffer, when nothing but the want of data stops
it. -/
abbrev Safe {α : Type} (P : ByteArray Byte → Prop) (m : Script Ask Byte α)
    (Q : ByteArray Byte → Prop) : Prop :=
  Script.Triple fromChunks Fault.Thrown P m Q

section
variable {base : Nat}

theorem safe_take (hbase : 1 < base) {n : Nat} (hn : 0 < n) :
    Safe (ByteArray.Used base) (Script.take (.read n)) (ByteArray.Used base) :=
  .take fun b hb => by
    obtain ⟨xs, b', hread, hs, -⟩ | herr := read_of_used hbase hb (n := n) (by omega)
    · exact .inl ⟨xs, b', hread, hs⟩
    · exact .inr ⟨_, thrown_outOfData, herr⟩

/-- The characters of a string: the resize may throw before the read. -/
theorem safe_chars (hbase : 1 < base) (n : Nat) :
    Safe (Ready base) (Script.take (.chars n)) (ByteArray.Used base) :=
  .take fun b hb => by
    change (∃ xs b', (do resizeFor n b.getReadSize; b.read n) = .ok (xs, b') ∧ _) ∨
      ∃ e, e.Thrown ∧ (do resizeFor n b.getReadSize; b.read n) = .error e
    cases hroom : resizeFor n b.getReadSize with
    | error e => exact .inr ⟨e, thrown_resizeFor hroom, rfl⟩
    | ok _ =>
        obtain ⟨xs, b', hread, hs, -⟩ | herr := read_of_used hbase hb.used (n := n) fun _ => hb.cur
        · exact .inl ⟨xs, b', hread, hs⟩
        · exact .inr ⟨_, thrown_outOfData, herr⟩

theorem safe_askFuint8 (hbase : 1 < base) :
    Safe (ByteArray.Used base) askFuint8 (Ready base) := by
  refine Script.Triple.bind (Q := Ready base) (.take fun b hb => ?_) fun _ => .pure _
  obtain ⟨xs, b', hread, hs, hcur⟩ | herr := read_of_used hbase hb (n := 1) (by omega)
  · exact .inl ⟨xs, b', hread, hs, hcur rfl⟩
  · exact .inr ⟨_, thrown_outOfData, herr⟩

theorem safe_askVarint (hbase : 1 < base) {w : Nat} (rounds i : Nat) (ans : BitVec w) :
    Safe (Ready base) (askVarint rounds i ans) (Ready base) := by
  induction rounds generalizing i ans with
  | zero => exact .pure ans
  | succ rounds ih =>
      have hbyte : Safe (Ready base) askFuint8 (Ready base) :=
        (safe_askFuint8 hbase).weaken (fun _ hb => hb.used) fun _ hb => hb
      refine hbyte.bind fun byte => ?_
      split
      · exact ih _ _
      · exact .pure _

/-- The last byte of a number is read by itself. -/
theorem safe_askVarint_succ (hbase : 1 < base) {w : Nat} (rounds i : Nat) (ans : BitVec w) :
    Safe (ByteArray.Used base) (askVarint (rounds + 1) i ans) (Ready base) := by
  refine (safe_askFuint8 hbase).bind fun byte => ?_
  split
  · exact safe_askVarint hbase _ _ _
  · exact .pure _

/-- So a string's characters are read from a node, even where there are none. -/
theorem safe_askStringVint (hbase : 1 < base) :
    Safe (ByteArray.Used base) askStringVint (ByteArray.Used base) :=
  (safe_askVarint_succ hbase 9 0 0).bind fun len => safe_chars hbase len.toNat

theorem Safe.used {α : Type} {m : Script Ask Byte α}
    (h : Safe (ByteArray.Used base) m (Ready base)) :
    Safe (ByteArray.Used base) m (ByteArray.Used base) :=
  h.weaken (fun _ hb => hb) fun _ hb => hb.used

theorem safe_askUint64 (hbase : 1 < base) :
    Safe (ByteArray.Used base) askUint64 (ByteArray.Used base) :=
  (safe_askVarint_succ hbase 9 0 0).used

/-- A container, when a round of its loop is safe. -/
theorem safe_container (hbase : 1 < base) {β : Type} {f : β → Script Ask Byte β}
    (h : ∀ b, Safe (ByteArray.Used base) (f b) (ByteArray.Used base)) (data : β) :
    Safe (ByteArray.Used base)
      (do let n ← askUint64; Script.iterate f n.toNat data : Script Ask Byte β)
      (ByteArray.Used base) :=
  (safe_askUint64 hbase).bind fun n => .iterate h n.toNat data

theorem safe_askFixed (hbase : 1 < base) {n : Nat} (hn : 0 < n) (e : Endian) :
    Safe (ByteArray.Used base) (askFixed n e) (ByteArray.Used base) :=
  (safe_take hbase hn).bind fun _ => .pure _

mutual

/-- What `>>` asks of a buffer in use, it may. -/
theorem safe_ask (hbase : 1 < base) :
    (t : Ty) → (old : t.Val) → Safe (ByteArray.Used base) (ask t old) (ByteArray.Used base)
  | .bool, _ => (safe_askFuint8 hbase).used.bind fun _ => .pure _
  | .float, _ => safe_askFixed hbase (by decide) .big
  | .double, _ => safe_askFixed hbase (by decide) .big
  | .uint8, _ => (safe_askFuint8 hbase).used
  | .int8, _ => (safe_askFuint8 hbase).used
  | .uint16, _ => safe_askFixed hbase (by decide) .big
  | .int16, _ => safe_askFixed hbase (by decide) .big
  | .uint32, _ => (safe_askVarint_succ hbase 4 0 0).used
  | .int32, _ => (safe_askVarint_succ hbase 4 0 0).used.bind fun _ => .pure _
  | .uint64, _ => safe_askUint64 hbase
  | .int64, _ => (safe_askUint64 hbase).bind fun _ => .pure _
  | .string, _ => safe_askStringVint hbase
  | .vector t, data =>
      safe_container hbase (fun _ => (safe_ask hbase t t.init).bind fun _ => .pure _) data
  | .list t, data =>
      safe_container hbase (fun _ => (safe_ask hbase t t.init).bind fun _ => .pure _) data
  | .set t, data =>
      safe_container hbase (fun _ => (safe_ask hbase t t.init).bind fun _ => .pure _) data
  | .unorderedSet t, data =>
      safe_container hbase (fun _ => (safe_ask hbase t t.init).bind fun _ => .pure _) data
  | .map k v, data =>
      safe_container hbase (fun _ => (safe_ask hbase k k.init).bind fun _ =>
        (safe_ask hbase v v.init).bind fun _ => .pure _) data
  | .unorderedMap k v, data =>
      safe_container hbase (fun _ => (safe_ask hbase k k.init).bind fun _ =>
        (safe_ask hbase v v.init).bind fun _ => .pure _) data
  | .tuple ts, tp => safe_askTuple hbase ts tp

theorem safe_askTuple (hbase : 1 < base) : (ts : List Ty) → (tp : (Ty.interps ts).Val) →
    Safe (ByteArray.Used base) (askTuple ts tp) (ByteArray.Used base)
  | [], _ => .pure _
  | t :: ts, (v, vs) =>
      (safe_ask hbase t v).bind fun _ => (safe_askTuple hbase ts vs).bind fun _ => .pure _

end

/-- **No null node**: from whatever state a buffer of nodes of two bytes or
more was brought to, `>>` returns in such a state or throws for want of data:
`out_of_range`, or what a string's resize throws. -/
theorem getOn_of_used (hbase : 1 < base) {b : ByteArray Byte} (h : ByteArray.Used base b) (t : Ty)
    (old : t.Val) :
    (∃ v b', getOn b t old = .ok (v, b') ∧ ByteArray.Used base b') ∨
      ∃ e, e.Thrown ∧ getOn b t old = .error e :=
  safe_ask hbase t old b h

end

end

/-- An empty string at the very end of a node of two bytes. -/
theorem getOn_of_used_empty : ∃ b : ByteArray Byte, ByteArray.Used 2 b ∧ b.position = 1 ∧
    letI := x86_64
    ((∃ v b', getOn b .string ([] : Bytes) = .ok (v, b') ∧ ByteArray.Used 2 b') ∨
      ∃ e, e.Thrown ∧ getOn b .string ([] : Bytes) = .error e) := by
  let m := x86_64
  have hrun : Lts.Run ByteArray.UseStep (ByteArray.new 2 : ByteArray Byte)
      ([.write [7, 0]] ++ [.setPosition 1]) ⟨1, 2, 2, 2, [[7, 0]], some 0⟩ :=
    .snoc (.single rfl) rfl
  exact ⟨_, ⟨_, hrun⟩, rfl, @getOn_of_used m 2 (by decide) _ ⟨_, hrun⟩ .string ([] : Bytes)⟩

/-- In nodes of one byte the same read meets the null node. -/
example :
    letI := x86_64
    getOn ⟨0, 1, 1, 1, [[0]], some 0⟩ .string ([] : Bytes) = .error .nullNode := rfl

end Serializer
end XzmjxRpc
