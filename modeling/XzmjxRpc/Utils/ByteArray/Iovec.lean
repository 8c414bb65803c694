import XzmjxRpc.Utils.ByteArray.Invariant

/-!
# XzmjxRpc.Utils.ByteArray.Iovec

The scatter/gather functions `getReadBuffers` (two overloads) and
`getWriteBuffers`, which every socket transfer goes through.  Their common
loop (`gather`) never takes a used-up node off `len`, so as soon as the range
leaves its first node the segments are longer than what was asked for, or the
walk runs off the chain: `gather_iff` is the exact condition, and the two
results about the functions are instances of it.
-/

namespace XzmjxRpc
namespace ByteArray

open Blocks

variable {α : Type u}

/-! ## the loop -/

/-- Whatever the loop produces is at least as long as what was asked for. -/
theorem le_sum_gather {len npos i : Nat} {chain : List (List α)} {segs : List Iovec}
    (h : gather len npos i chain = .ok segs) : len ≤ (segs.map Iovec.len).sum := by
  induction chain generalizing npos i segs with
  | nil => rw [gather] at h; contradiction
  | cons node rest ih =>
      rw [gather] at h
      by_cases hc : len ≤ node.length - npos
      · simp only [if_pos hc] at h
        cases h
        simp
      · simp only [if_neg hc] at h
        cases hr : gather len 0 (i + 1) rest with
        | error e => simp only [hr] at h; contradiction
        | ok segs' =>
            simp only [hr] at h
            cases h
            have := ih hr
            simp only [List.map_cons, List.sum_cons]
            omega

/-- The range lies in one node: one segment. -/
theorem gather_of_le {len npos i : Nat} {node : List α} {rest : List (List α)}
    (h : npos + len ≤ node.length) : gather len npos i (node :: rest) = .ok [⟨i, npos, len⟩] := by
  rw [gather, if_pos (by omega)]

/-- More than a node holds, asked for in nodes of that size: the walk leaves
the chain, however long it is. -/
theorem gather_of_lt {base len npos i : Nat} {chain : List (List α)} (hu : Uniform base chain)
    (h : base < len) : gather len npos i chain = .error .nullNode := by
  induction chain generalizing npos i with
  | nil => rw [gather]
  | cons node rest ih =>
      obtain ⟨hnode, hrest⟩ := uniform_cons.mp hu
      rw [gather, if_neg (by omega), ih hrest]

/-- **The loop**, exactly: the segments have the length asked for if and only
if the range lies in one node. -/
theorem gather_iff {base len npos i : Nat} {chain : List (List α)} (hu : Uniform base chain)
    (hne : chain ≠ []) (hn : npos < base) :
    (∃ segs, gather len npos i chain = .ok segs ∧ (segs.map Iovec.len).sum = len) ↔
      npos + len ≤ base := by
  cases chain with
  | nil => exact absurd rfl hne
  | cons node rest =>
      have hnode := (uniform_cons.mp hu).1
      constructor
      · rintro ⟨segs, hrun, hsum⟩
        by_contra hc
        rw [gather, if_neg (by omega)] at hrun
        cases hr : gather len 0 (i + 1) rest with
        | error e => simp only [hr] at hrun; contradiction
        | ok segs' =>
            simp only [hr, Except.ok.injEq] at hrun
            subst hrun
            have := le_sum_gather hr
            simp only [List.map_cons, List.sum_cons] at hsum
            omega
      · intro hc
        exact ⟨_, gather_of_le (by omega), by simp⟩

/-! ## gather: getReadBuffers -/

/-- What a `getReadBuffers` call for `len` cells from `pos` on is to return:
the count, clamped to the content, and segments that spell exactly these
content cells. -/
def Gathers (b : ByteArray α) (pos len : Nat) (res : Except Fault (Nat × List Iovec)) : Prop :=
  ∃ segs, res = .ok (min len (b.size - pos), segs) ∧
    (0 < min len (b.size - pos) →
      (segs.map b.segment).flatten = (b.content.drop pos).take (min len (b.size - pos)) ∧
      (segs.map Iovec.len).sum = min len (b.size - pos))

/-- The loop from the node of `pos` on, `n` cells of content asked for. -/
theorem gather_node_iff {b : ByteArray α} (h : b.WF) {pos n : Nat} (hn : 0 < n)
    (hfit : pos + n ≤ b.size) :
    (∃ segs, gather n (pos % b.baseSize) (pos / b.baseSize)
        (b.nodes.drop (pos / b.baseSize)) = .ok segs ∧
      (segs.map b.segment).flatten = (b.content.drop pos).take n ∧
      (segs.map Iovec.len).sum = n) ↔
    pos % b.baseSize + n ≤ b.baseSize := by
  have hsize := h.size_le
  have hlt := h.div_lt (p := pos) (by omega)
  have hmod := Nat.mod_lt pos h.base_pos
  have hdrop : b.nodes.drop (pos / b.baseSize) ≠ [] :=
    List.ne_nil_of_length_pos (by rw [List.length_drop]; omega)
  have hiff : (∃ segs, gather n (pos % b.baseSize) (pos / b.baseSize)
      (b.nodes.drop (pos / b.baseSize)) = .ok segs ∧ (segs.map Iovec.len).sum = n) ↔
        pos % b.baseSize + n ≤ b.baseSize := gather_iff (h.uniform.drop _) hdrop hmod
  constructor
  · rintro ⟨segs, hrun, -, hsum⟩
    exact hiff.mp ⟨segs, hrun, hsum⟩
  · intro hc
    have hnode := h.uniform _ (List.getElem_mem hlt)
    refine ⟨[⟨pos / b.baseSize, pos % b.baseSize, n⟩], ?_, ?_, by simp⟩
    · rw [List.drop_eq_getElem_cons hlt, gather_of_le (by rw [hnode]; exact hc)]
    · rw [List.map_singleton, List.flatten_singleton, segment,
        take_drop_getElem? h.uniform hlt hc, Nat.div_add_mod, content, List.drop_take,
        List.take_take, cells]
      congr 1
      omega

/-- `Gathers` for a call that clamps to `n` and, for `n > 0`, runs the loop. -/
theorem gathers_iff_of_loop {b : ByteArray α} (h : b.WF) {pos len : Nat} {buffers : List Iovec}
    (hp : pos ≤ b.size) {res : Except Fault (Nat × List Iovec)}
    (hres : res = if min len (b.size - pos) = 0 then .ok (0, buffers) else
      (gather (min len (b.size - pos)) (pos % b.baseSize) (pos / b.baseSize)
        (b.nodes.drop (pos / b.baseSize))).map (min len (b.size - pos), ·)) :
    b.Gathers pos len res ↔
      min len (b.size - pos) = 0 ∨ pos % b.baseSize + min len (b.size - pos) ≤ b.baseSize := by
  have hfit : pos + min len (b.size - pos) ≤ b.size := by omega
  unfold Gathers
  generalize min len (b.size - pos) = n at *
  rcases Nat.eq_zero_or_pos n with rfl | hn
  · rw [if_pos rfl] at hres
    exact ⟨fun _ => .inl rfl, fun _ => ⟨buffers, hres, fun h0 => absurd h0 (Nat.lt_irrefl 0)⟩⟩
  · rw [if_neg (by omega)] at hres
    have hiff := gather_node_iff h hn hfit
    constructor
    · rintro ⟨segs, hok, hspec⟩
      rw [hok] at hres
      cases hr : gather n (pos % b.baseSize) (pos / b.baseSize)
          (b.nodes.drop (pos / b.baseSize)) with
      | error e => simp only [hr, Except.map] at hres; contradiction
      | ok segs' =>
          simp only [hr, Except.map, Except.ok.injEq, Prod.mk.injEq, true_and] at hres
          subst hres
          exact .inr (hiff.mp ⟨segs, hr, hspec hn⟩)
    · intro hc
      obtain ⟨segs, hr, hspec⟩ := hiff.mpr (by omega)
      simp only [hr, Except.map] at hres
      exact ⟨segs, hres, fun _ => hspec⟩

theorem getReadBuffers_eq {b : ByteArray α} (h : b.WF) (buffers : List Iovec) (len : Nat) :
    b.getReadBuffers buffers len =
      if min len (b.size - b.position) = 0 then .ok (0, buffers) else
      (gather (min len (b.size - b.position)) (b.position % b.baseSize)
        (b.position / b.baseSize) (b.nodes.drop (b.position / b.baseSize))).map
          (min len (b.size - b.position), ·) := by
  have hclamp : (if b.getReadSize < len then b.getReadSize else len) =
      min len (b.size - b.position) := by
    rw [h.getReadSize_eq]
    split <;> omega
  simp only [getReadBuffers, hclamp]
  split
  · rfl
  · next hn =>
      have hsize := h.size_le
      rw [h.cur_eq, nodeAt_of_lt (h.div_lt (by omega))]

theorem getReadBuffersAt_eq {b : ByteArray α} (buffers : List Iovec) (len : Nat) {pos : Nat}
    (hp : pos ≤ b.size) :
    b.getReadBuffersAt buffers len pos =
      if min len (b.size - pos) = 0 then .ok (0, buffers) else
      (gather (min len (b.size - pos)) (pos % b.baseSize) (pos / b.baseSize)
        (b.nodes.drop (pos / b.baseSize))).map (min len (b.size - pos), ·) := by
  have hclamp : (if sizeSub b.size pos < len then sizeSub b.size pos else len) =
      min len (b.size - pos) := by
    rw [sizeSub_of_le hp]
    split <;> omega
  simp only [getReadBuffersAt, hclamp]

/-- **getReadBuffers**, both overloads: the segments are the content asked for
exactly when nothing is left to send or the range lies in one node. -/
theorem getReadBuffers_gathers_iff [Inhabited α] {base : Nat} (hbase : 0 < base)
    {b : ByteArray α} (h : Reachable base b) (buffers : List Iovec) (len : Nat) :
    (b.Gathers b.position len (b.getReadBuffers buffers len) ↔
      min len (b.size - b.position) = 0 ∨
        b.position % base + min len (b.size - b.position) ≤ base) ∧
    ∀ pos ≤ b.size, (b.Gathers pos len (b.getReadBuffersAt buffers len pos) ↔
      min len (b.size - pos) = 0 ∨ pos % base + min len (b.size - pos) ≤ base) := by
  obtain ⟨hw, rfl⟩ := h.wf hbase
  exact ⟨gathers_iff_of_loop hw hw.position_le (getReadBuffers_eq hw buffers len),
    fun pos hp => gathers_iff_of_loop hw hp (getReadBuffersAt_eq buffers len hp)⟩

/-- Six bytes from the start of two four-byte nodes: the walk leaves the
chain. -/
theorem getReadBuffers_six : ∃ b : ByteArray UInt8, Reachable 4 b ∧
    b.content = [1, 2, 3, 4, 5, 6] ∧ b.position = 0 ∧
    ¬ b.Gathers b.position 6 (b.getReadBuffers [] 6) := by
  have hrun : Lts.Run Step (new 4 : ByteArray UInt8)
      ([.write [1, 2, 3, 4, 5, 6]] ++ [.setPosition 0])
      ⟨0, 4, 8, 6, [[1, 2, 3, 4], [5, 6, 0, 0]], some 0⟩ := .snoc (.snoc .nil rfl) rfl
  refine ⟨_, ⟨_, hrun⟩, by decide, rfl, ?_⟩
  rintro ⟨segs, hres, -⟩
  contradiction

/-- Two bytes from offset two of the second node are one segment. -/
theorem getReadBuffersAt_one_node : ∃ b : ByteArray UInt8,
    b.content = [1, 2, 3, 4, 5, 6, 7, 8] ∧ b.Gathers 6 9 (b.getReadBuffersAt [] 9 6) := by
  have hrun : Lts.Run Step (new 4 : ByteArray UInt8) [.write [1, 2, 3, 4, 5, 6, 7, 8]]
      ⟨8, 4, 8, 8, [[1, 2, 3, 4], [5, 6, 7, 8]], none⟩ := .single rfl
  exact ⟨_, by decide, ((getReadBuffers_gathers_iff (by decide) ⟨_, hrun⟩ [] 9).2 6
    (by decide)).mpr (.inr (by decide))⟩

/-! ## scatter: getWriteBuffers -/

/-- Filling the segments of `getWriteBuffers(buffers, |d|)` with `d` and moving
the position behind them does what `write(d)` does, and the segments have room
for exactly `d`. -/
def ScattersAsWrite [Inhabited α] (b : ByteArray α) (buffers : List Iovec) (d : List α) : Prop :=
  ∃ segs b₁ b₂ b₃, b.getWriteBuffers buffers d.length = .ok (d.length, segs, b₁) ∧
    (segs.map Iovec.len).sum = d.length ∧
    (b₁.fill segs d).setPosition (b.position + d.length) = .ok b₂ ∧ b.write d = .ok b₃ ∧
    b₂.content = b₃.content ∧ b₂.position = b₃.position ∧ b₂.size = b₃.size ∧
    b₂.capacity = b₃.capacity

theorem getWriteBuffers_eq [Inhabited α] {b : ByteArray α} (h : b.WF) (buffers : List Iovec)
    {n : Nat} (hn : 0 < n) :
    b.getWriteBuffers buffers n =
      (gather n (b.position % b.baseSize) (b.position / b.baseSize)
        ((b.addCapacity n).nodes.drop (b.position / b.baseSize))).map
          (n, ·, b.addCapacity n) := by
  obtain ⟨hw, hpos, hbase, -, -, hfit, -⟩ := addCapacity_spec h n
  have hfit := hfit hn
  have hlt := hw.div_lt (p := (b.addCapacity n).position) (by omega)
  rw [getWriteBuffers, if_neg (by omega)]
  simp only [hw.cur_eq, nodeAt_of_lt hlt]
  rw [hpos, hbase]

/-- One segment that covers the range: filling it and moving on is `write`. -/
theorem fill_setPosition_eq_write [Inhabited α] {b : ByteArray α} (h : b.WF) {d : List α}
    (hd : d ≠ []) (hc : b.position % b.baseSize + d.length ≤ b.baseSize) :
    ∃ b₂ b₃, ((b.addCapacity d.length).fill
        [⟨b.position / b.baseSize, b.position % b.baseSize, d.length⟩] d).setPosition
          (b.position + d.length) = .ok b₂ ∧ b.write d = .ok b₃ ∧
      b₂.content = b₃.content ∧ b₂.position = b₃.position ∧ b₂.size = b₃.size ∧
      b₂.capacity = b₃.capacity := by
  have hdl := List.length_pos_of_ne_nil hd
  obtain ⟨b₃, hwrite, -, hpos₃, -, hcap₃, hsize₃, -, hcells₃⟩ := write_spec h hd
  obtain ⟨hw, hpos, hbase, hsize, -, hfit, -⟩ := addCapacity_spec h d.length
  have hfit := hfit hdl
  generalize b.addCapacity d.length = c at *
  have hlt : b.position / b.baseSize < c.nodes.length := by
    rw [← hbase]
    exact hw.div_lt (by omega)
  have hfill : c.fill [⟨b.position / b.baseSize, b.position % b.baseSize, d.length⟩] d =
      { c with
        nodes := c.nodes.modify (b.position / b.baseSize)
          (splice (b.position % b.baseSize) d) } := by
    simp only [fill, List.take_length]
  have hcells : (c.nodes.modify (b.position / b.baseSize)
      (splice (b.position % b.baseSize) d)).flatten = splice b.position d c.cells := by
    rw [flatten_modify_splice hw.uniform hlt (by omega), hbase, Nat.div_add_mod, cells]
  have hfilled : (c.fill [⟨b.position / b.baseSize, b.position % b.baseSize, d.length⟩] d).WF := by
    rw [hfill]
    refine ⟨hw.base_pos, hw.uniform.modify_splice (by omega), ?_, ?_, hw.position_le, hw.size_le,
      ?_⟩
    · simpa using hw.nodes_pos
    · simpa using hw.capacity_eq
    · simpa [nodeAt] using hw.cur_eq
  have hcap : b.position + d.length ≤ (c.fill
      [⟨b.position / b.baseSize, b.position % b.baseSize, d.length⟩] d).capacity := by
    rw [hfill]
    exact hfit
  have hset := setPosition_spec hfilled hcap
  refine ⟨_, b₃, hset, hwrite, ?_, hpos₃.symm, ?_, hcap₃.symm⟩
  · rw [content, content, hcells₃, hsize₃]
    simp only [cells, hfill, hcells, hsize]
  · rw [hsize₃]
    simp only [hfill, hsize]

/-- **getWriteBuffers**: filling its segments does what `write` does exactly
when the bytes fit into the node of the position. -/
theorem getWriteBuffers_scatters_iff [Inhabited α] {base : Nat} (hbase : 0 < base)
    {b : ByteArray α} (h : Reachable base b) (buffers : List Iovec) {d : List α} (hd : d ≠ []) :
    b.ScattersAsWrite buffers d ↔ b.position % base + d.length ≤ base := by
  obtain ⟨hw, rfl⟩ := h.wf hbase
  have hdl := List.length_pos_of_ne_nil hd
  obtain ⟨hwc, hpos, hbc, -, -, hfit, -⟩ := addCapacity_spec hw d.length
  have hlt := hwc.div_lt (p := b.position) (by have := hfit hdl; omega)
  rw [hbc] at hlt
  have hmod := Nat.mod_lt b.position hw.base_pos
  have hdrop : (b.addCapacity d.length).nodes.drop (b.position / b.baseSize) ≠ [] :=
    List.ne_nil_of_length_pos (by rw [List.length_drop]; omega)
  have hu : Uniform b.baseSize ((b.addCapacity d.length).nodes.drop (b.position / b.baseSize)) :=
    hbc ▸ hwc.uniform.drop _
  have heq := getWriteBuffers_eq hw buffers hdl
  constructor
  · rintro ⟨segs, b₁, -, -, hrun, hsum, -⟩
    rw [heq] at hrun
    cases hr : gather d.length (b.position % b.baseSize) (b.position / b.baseSize)
        ((b.addCapacity d.length).nodes.drop (b.position / b.baseSize)) with
    | error e => simp only [hr, Except.map] at hrun; contradiction
    | ok segs' =>
        simp only [hr, Except.map, Except.ok.injEq, Prod.mk.injEq, true_and] at hrun
        obtain ⟨rfl, -⟩ := hrun
        exact (gather_iff hu hdrop hmod).mp ⟨segs', hr, hsum⟩
  · intro hc
    obtain ⟨b₂, b₃, hset, hwrite, hsame⟩ := fill_setPosition_eq_write hw hd hc
    have hnode : (b.addCapacity d.length).nodes[b.position / b.baseSize].length = b.baseSize :=
      (hwc.uniform _ (List.getElem_mem hlt)).trans hbc
    have hone : gather d.length (b.position % b.baseSize) (b.position / b.baseSize)
        ((b.addCapacity d.length).nodes.drop (b.position / b.baseSize)) =
        .ok [⟨b.position / b.baseSize, b.position % b.baseSize, d.length⟩] := by
      rw [List.drop_eq_getElem_cons hlt, gather_of_le (by rw [hnode]; exact hc)]
    exact ⟨_, b.addCapacity d.length, b₂, b₃, by rw [heq, hone]; rfl, by simp, hset, hwrite,
      hsame⟩

/-- Two bytes at offset three of a four-byte node get segments for three. -/
theorem getWriteBuffers_border : ∃ b : ByteArray UInt8, Reachable 4 b ∧ b.position = 3 ∧
    ¬ b.ScattersAsWrite [] [8, 9] := by
  have hrun : Lts.Run Step (new 4 : ByteArray UInt8) [.write [1, 2, 3]]
      ⟨3, 4, 4, 3, [[1, 2, 3, 0]], some 0⟩ := .single rfl
  refine ⟨_, ⟨_, hrun⟩, rfl, ?_⟩
  rintro ⟨segs, b₁, b₂, b₃, hres, hsum, -⟩
  cases hres
  revert hsum
  decide

/-- Two bytes at offset one fit. -/
theorem getWriteBuffers_inside : ∃ b : ByteArray UInt8, b.position = 1 ∧
    b.ScattersAsWrite [] [8, 9] := by
  have hrun : Lts.Run Step (new 4 : ByteArray UInt8) ([.write [1, 2, 3]] ++ [.setPosition 1])
      ⟨1, 4, 4, 3, [[1, 2, 3, 0]], some 0⟩ := .snoc (.snoc .nil rfl) rfl
  exact ⟨_, rfl,
    (getWriteBuffers_scatters_iff (by decide) ⟨_, hrun⟩ [] (by decide)).mpr (by decide)⟩

end ByteArray
end XzmjxRpc
