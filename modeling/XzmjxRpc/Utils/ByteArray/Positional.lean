import XzmjxRpc.Utils.ByteArray.Lagging

/-!
# XzmjxRpc.Utils.ByteArray.Positional

The positional `read(buf, size, position)`, which finds its node by a division
and leaves the cursor alone, and `toString`, which is such a read of what is
left.

Inside the content the positional read and the cursor `read` after a
`setPosition` are the same (`read_setPosition_eq_readAt`).  Two kinds of calls
go wrong, and only these: its test `size > m_size - position` wraps around for
a position past the content (`positionalRight_iff`), and the node of a position
at the end of the chain does not exist (`toStringRight_iff`).
-/

namespace XzmjxRpc
namespace ByteArray

open Blocks

variable {α : Type u}

/-! ## buffers in use -/

/-- The operations that change a buffer. -/
inductive Use (α : Type u) where
  | write (d : List α)
  | read (n : Nat)
  | setPosition (pos : Nat)
  | clear
  | getWriteBuffers (len : Nat)
  /-- `recvmsg` stores `d` in a segment of the chain. -/
  | store (v : Iovec) (d : List α)

/-- One operation, when it returns.  One that throws changes nothing. -/
def UseStep [Inhabited α] (b : ByteArray α) : Use α → ByteArray α → Prop
  | .write d, b' => b.write d = .ok b'
  | .read n, b' => ∃ out, b.read n = .ok (out, b')
  | .setPosition pos, b' => b.setPosition pos = .ok b'
  | .clear, b' => b' = b.clear
  | .getWriteBuffers len, b' => ∃ n segs, b.getWriteBuffers [] len = .ok (n, segs, b')
  | .store v d, b' => v.off + v.len ≤ b.baseSize ∧ b' = b.fill [v] d

/-- `b` is reached from a fresh `ByteArray(base)` by any of the operations. -/
def Used [Inhabited α] (base : Nat) (b : ByteArray α) : Prop :=
  ∃ ops, Lts.Run UseStep (new base) ops b

theorem getWriteBuffers_inv [Inhabited α] {b b' : ByteArray α} {len n : Nat} {segs : List Iovec}
    (hs : b.getWriteBuffers [] len = .ok (n, segs, b')) : b' = b.addCapacity len := by
  unfold getWriteBuffers at hs
  by_cases h0 : len = 0
  · rw [if_pos h0] at hs
    cases hs
    rw [addCapacity, if_pos h0]
  · simp only [if_neg h0] at hs
    split at hs
    · cases hs
    · generalize gather len _ _ _ = segs' at hs
      cases segs' <;> cases hs
      rfl

/-- Bytes stored from outside change no more than cells. -/
theorem fill_lags {b : ByteArray α} {lag : Nat} (h : b.Lags lag) {v : Iovec}
    (hv : v.off + v.len ≤ b.baseSize) (d : List α) : (b.fill [v] d).Lags lag := by
  have hlen : (b.nodes.modify v.node (splice v.off (d.take v.len))).length = b.nodes.length :=
    List.length_modify ..
  have htake : v.off + (d.take v.len).length ≤ b.baseSize := by
    rw [List.length_take]
    omega
  refine ⟨⟨h.base_pos, h.uniform.modify_splice htake, ?_, h.position_le, h.size_le, h.lag_le, ?_⟩,
    ?_⟩
  · exact h.capacity_eq.trans (congrArg (b.baseSize * ·) hlen.symm)
  · show b.cur = if _ < (b.nodes.modify v.node _).length then _ else _
    rw [hlen]
    exact h.cur_eq
  · exact h.nodes_pos.trans_eq hlen.symm

/-- Every operation keeps the layout; `m_cur` may fall behind. -/
theorem useStep_lags [Inhabited α] {b b' : ByteArray α} {op : Use α}
    (h : ∃ lag, b.Lags lag) (hs : UseStep b op b') : ∃ lag, b'.Lags lag := by
  obtain ⟨lag, h⟩ := h
  cases op with
  | write d =>
      by_cases hd : d = []
      · subst hd
        cases b.write_nil.symm.trans hs
        exact ⟨lag, h⟩
      · exact ⟨_, (write_inv h hd hs).1⟩
  | read n =>
      obtain ⟨out, hr⟩ := hs
      exact (read_lags h hr).1
  | setPosition pos => exact ⟨0, (setPosition_inv h hs).1⟩
  | clear =>
      cases hs
      exact ⟨0, clear_lags h⟩
  | getWriteBuffers len =>
      obtain ⟨n, segs, hs⟩ := hs
      rw [getWriteBuffers_inv hs]
      by_cases h0 : len = 0
      · rw [addCapacity, if_pos h0]
        exact ⟨lag, h⟩
      · exact ⟨_, (addCapacity_lags h (by omega)).1⟩
  | store v d =>
      obtain ⟨hv, rfl⟩ := hs
      exact ⟨lag, fill_lags h hv d⟩

/-- Every buffer in use has the layout. -/
theorem Used.lags [Inhabited α] {base : Nat} (hbase : 0 < base) {b : ByteArray α}
    (h : Used base b) : ∃ lag, b.Lags lag := by
  obtain ⟨ops, hrun⟩ := h
  exact hrun.invariant (I := fun b => ∃ lag, b.Lags lag) ⟨0, (new_wf hbase).lags⟩
    fun _ _ _ => useStep_lags

/-- No operation changes the size of the nodes. -/
theorem useStep_baseSize [Inhabited α] {b b' : ByteArray α} {op : Use α}
    (h : ∃ lag, b.Lags lag) (hs : UseStep b op b') : b'.baseSize = b.baseSize := by
  obtain ⟨lag, h⟩ := h
  cases op with
  | write d =>
      by_cases hd : d = []
      · subst hd
        cases b.write_nil.symm.trans hs
        rfl
      · exact (write_inv h hd hs).2.2.1
  | read n =>
      obtain ⟨out, hr⟩ := hs
      unfold read at hr
      split at hr
      · cases hr
      · split at hr
        · cases hr
        · split at hr <;> cases hr
          rfl
  | setPosition pos => exact setPosition_baseSize hs
  | clear =>
      cases hs
      rfl
  | getWriteBuffers len =>
      obtain ⟨n, segs, hs⟩ := hs
      rw [getWriteBuffers_inv hs]
      by_cases h0 : len = 0
      · rw [addCapacity, if_pos h0]
      · exact (addCapacity_lags h (by omega)).2.2.1
  | store v d =>
      obtain ⟨-, rfl⟩ := hs
      rfl

theorem Used.baseSize [Inhabited α] {base : Nat} (hbase : 0 < base) {b : ByteArray α}
    (h : Used base b) : b.baseSize = base := by
  obtain ⟨ops, hrun⟩ := h
  have hboth : (∃ lag, b.Lags lag) ∧ b.baseSize = base :=
    hrun.invariant (I := fun b => (∃ lag, b.Lags lag) ∧ b.baseSize = base)
      ⟨⟨0, (new_wf hbase).lags⟩, rfl⟩
      fun _ _ _ h hs => ⟨useStep_lags h.1 hs, (useStep_baseSize h.1 hs).trans h.2⟩
  exact hboth.2

/-! ## the two reads -/

/-- `b'` holds the data that `b` holds. -/
structure SameData (b b' : ByteArray α) : Prop where
  content : b'.content = b.content
  size : b'.size = b.size
  capacity : b'.capacity = b.capacity

/-- **The two reads agree**: after `setPosition(p)` the cursor `read(buf, n)`
throws exactly when the positional `read(buf, n, p)` does, which is when fewer
than `n` bytes follow `p`, and returns the same bytes. -/
theorem read_setPosition_eq_readAt [Inhabited α] {base : Nat} (hbase : 0 < base) {b : ByteArray α}
    (h : Reachable base b) {p n : Nat} (hp : p ≤ b.size) (hn : 0 < n) :
    ∃ b₀, b.setPosition p = .ok b₀ ∧ SameData b b₀ ∧ b₀.readAt n p = b.readAt n p ∧
      (b.size - p < n →
        b₀.read n = .error (.outOfRange "not enough data to read") ∧
        b.readAt n p = .error (.outOfRange "not enough data to read")) ∧
      (n ≤ b.size - p →
        ∃ b₁, b₀.read n = .ok ((b.content.drop p).take n, b₁) ∧
          b.readAt n p = .ok ((b.content.drop p).take n) ∧ SameData b b₁) := by
  obtain ⟨hw, rfl⟩ := h.wf hbase
  have hsize := hw.size_le
  have hset := setPosition_spec hw (hp.trans hsize)
  have hlag := (setPosition_wf hw hset).lags
  rw [Nat.max_eq_left hp] at hset hlag
  refine ⟨_, hset, ⟨rfl, rfl, rfl⟩, rfl, fun hlt => ⟨?_, ?_⟩, fun hle => ?_⟩
  · exact read_of_size_lt hlag (show b.size < p + n by omega)
  · rw [readAt, if_pos (by rwa [sizeSub_of_le hp])]
  · have hfit : p + n ≤ b.size := by omega
    obtain ⟨b₁, hread, -, -, -, hs, hcap, hnodes⟩ :=
      read_spec hlag.toLagging (n := n) hfit (by omega)
    refine ⟨b₁, ?_, ?_, ?_, hs, hcap⟩
    · rw [hread, behind, Nat.zero_mul, Nat.sub_zero, take_drop_content hfit]
      rfl
    · rw [readAt_lags hw.lags hfit (by omega), take_drop_content hfit]
    · rw [content, content, hs, cells, hnodes, cells]

/-- Three bytes across the border of two nodes of four cells. -/
theorem read_setPosition_eq_readAt_border : ∃ b b₀ b₁ : ByteArray UInt8, Reachable 4 b ∧
    b.setPosition 3 = .ok b₀ ∧ b₀.read 3 = .ok ([4, 5, 6], b₁) ∧ b.readAt 3 3 = .ok [4, 5, 6] := by
  have hrun : Lts.Run Step (new 4 : ByteArray UInt8) [.write [1, 2, 3, 4, 5, 6]]
      ⟨6, 4, 8, 6, [[1, 2, 3, 4], [5, 6, 0, 0]], some 1⟩ := .single rfl
  obtain ⟨b₀, hset, -, -, -, hok⟩ :=
    read_setPosition_eq_readAt (by decide) ⟨_, hrun⟩ (p := 3) (n := 3) (by decide) (by decide)
  obtain ⟨b₁, hread, hat, -⟩ := hok (by decide)
  exact ⟨_, b₀, b₁, ⟨_, hrun⟩, hset, hread, hat⟩

/-! ## any position -/

/-- The read loop fails only on a null node. -/
theorem readNodes_error {npos n : Nat} {chain : List (List α)} {e : Fault}
    (h : readNodes npos chain n = .error e) : e = .nullNode := by
  induction chain generalizing npos n with
  | nil => cases n <;> cases h; rfl
  | cons node rest ih =>
      rcases Nat.eq_zero_or_pos n with rfl | hn
      · cases h
      · rw [readNodes_succ _ _ _ hn] at h
        split at h
        · cases h
        · split at h
          · cases h
          · next hr =>
              cases h
              exact ih hr

/-- The positional read throws exactly when its wrapping test says so. -/
theorem readAt_throws_iff {b : ByteArray α} {n p : Nat} :
    (∃ w, b.readAt n p = .error (.outOfRange w)) ↔ sizeSub b.size p < n := by
  rw [readAt]
  constructor
  · rintro ⟨w, hw⟩
    by_contra hc
    rw [if_neg hc] at hw
    split at hw
    · cases hw
    · generalize hr : readNodes _ _ n = r at hw
      cases r with
      | error e =>
          cases readNodes_error hr
          cases hw
      | ok out => cases hw
  · intro hc
    exact ⟨_, if_pos hc⟩

/-- The positional read does what it is for: it throws exactly when the range
does not lie in the content, and returns the content there when it does. -/
def PositionalRight (b : ByteArray α) (n p : Nat) : Prop :=
  ((∃ w, b.readAt n p = .error (.outOfRange w)) ↔ b.size < p + n) ∧
    (p + n ≤ b.size → b.readAt n p = .ok ((b.content.drop p).take n))

/-- **Positional read**, exactly: it is right for every position up to the
size, and past it only if the difference that wrapped around is below `n`. -/
theorem positionalRight_iff [Inhabited α] {base : Nat} (hbase : 0 < base) {b : ByteArray α}
    (h : Used base b) {n p : Nat} (hn : 0 < n) :
    b.PositionalRight n p ↔ p ≤ b.size ∨ b.size + 2 ^ 64 < p + n := by
  obtain ⟨lag, hlag⟩ := h.lags hbase
  have hsize := hlag.size_le
  unfold PositionalRight
  rw [readAt_throws_iff, sizeSub]
  by_cases hp : p ≤ b.size
  · rw [if_pos hp]
    refine iff_of_true ⟨by omega, fun hfit => ?_⟩ (.inl hp)
    rw [readAt_lags hlag hfit (by omega), take_drop_content hfit]
  · -- past the content the read must throw, whatever `n` is
    rw [if_neg hp]
    constructor
    · rintro ⟨hthrows, -⟩
      have := hthrows.mpr (by omega)
      omega
    · rintro (hc | hc)
      · exact absurd hc hp
      · exact ⟨by omega, by omega⟩

/-- One byte past the end of an empty buffer: a cell nobody wrote in the first
node, the null node behind it. -/
theorem not_positionalRight_past_size :
    (new 4 : ByteArray UInt8).readAt 1 2 = .ok [0] ∧
    (new 4 : ByteArray UInt8).readAt 1 4 = .error .nullNode ∧
    ¬ (new 4 : ByteArray UInt8).PositionalRight 1 2 ∧
    ¬ (new 4 : ByteArray UInt8).PositionalRight 1 4 := by
  refine ⟨rfl, rfl, fun h => ?_, fun h => ?_⟩
  all_goals
    obtain ⟨w, hw⟩ := h.1.mpr (by decide)
    cases hw

/-- Two bytes from the last position there is. -/
theorem positionalRight_iff_last :
    (new 4 : ByteArray UInt8).PositionalRight 2 (2 ^ 64 - 1) :=
  (positionalRight_iff (by decide) ⟨[], .nil⟩ (by decide)).mpr (by decide)

/-! ## toString -/

/-- `toString` returns what is left to read. -/
def ToStringRight (b : ByteArray α) : Prop := b.toString = .ok (b.content.drop b.position)

/-- **toString**, exactly: it is right unless the position is the end of the
chain. -/
theorem toStringRight_iff [Inhabited α] {base : Nat} (hbase : 0 < base) {b : ByteArray α}
    (h : Used base b) : b.ToStringRight ↔ b.position < b.capacity := by
  obtain ⟨lag, hlag⟩ := h.lags hbase
  have hle := hlag.position_le
  have hread := hlag.getReadSize_eq
  unfold ToStringRight
  constructor
  · intro hok
    by_contra hc
    rw [hlag.toString_end (by omega)] at hok
    cases hok
  · intro hp
    rw [toString, readAt_lags hlag (by omega) hp, hread, content, List.drop_take]

/-- Four bytes in a node of four cells, all read. -/
theorem not_toStringRight_full : ∃ b : ByteArray UInt8, Used 4 b ∧ b.content = [1, 2, 3, 4] ∧
    b.position = 4 ∧ b.toString = .error .nullNode ∧ ¬ b.ToStringRight := by
  have hrun : Lts.Run UseStep (new 4 : ByteArray UInt8)
      ([.write [1, 2, 3, 4]] ++ [.setPosition 0] ++ [.read 4]) ⟨4, 4, 4, 4, [[1, 2, 3, 4]], none⟩ :=
    .snoc (.snoc (.single rfl) rfl) ⟨_, rfl⟩
  refine ⟨_, ⟨_, hrun⟩, rfl, rfl, rfl, fun h => ?_⟩
  cases h

/-- The same bytes with one left. -/
theorem toStringRight_one_left : ∃ b : ByteArray UInt8, Used 4 b ∧ b.toString = .ok [4] := by
  have hrun : Lts.Run UseStep (new 4 : ByteArray UInt8)
      ([.write [1, 2, 3, 4]] ++ [.setPosition 0] ++ [.read 3])
      ⟨3, 4, 4, 4, [[1, 2, 3, 4]], some 0⟩ :=
    .snoc (.snoc (.single rfl) rfl) ⟨_, rfl⟩
  exact ⟨_, ⟨_, hrun⟩, (toStringRight_iff (by decide) ⟨_, hrun⟩).mpr (by decide)⟩

end ByteArray
end XzmjxRpc
