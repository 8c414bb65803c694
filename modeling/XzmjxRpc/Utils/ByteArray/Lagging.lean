import XzmjxRpc.Utils.ByteArray.Read

/-!
# XzmjxRpc.Utils.ByteArray.Lagging

A buffer whose `m_cur` lags behind its position and is written to,
repositioned or cleared.  A write stores where `m_cur` is: as many nodes
before the position as `m_cur` lags (`write_lags`).  Only `setPosition`,
`clear` and the growth of a full buffer put `m_cur` right again.  The
positional `read` and `toString`, which walk from the root, do not use it.
-/

namespace XzmjxRpc
namespace ByteArray

open Blocks

variable {α : Type u}

/-! ## the node pointer put right -/

/-- `b` with `m_cur` at the node its position lies in. -/
def synced (b : ByteArray α) : ByteArray α :=
  { b with cur := b.nodeAt (b.position / b.baseSize) }

theorem WF.synced_eq {b : ByteArray α} (h : b.WF) : b.synced = b :=
  congrArg (fun c => { b with cur := c }) h.cur_eq.symm

/-- `m_cur` lags `lag` nodes behind in a chain that has a root. -/
structure Lags (b : ByteArray α) (lag : Nat) : Prop extends Lagging b lag where
  nodes_pos : 0 < b.nodes.length

theorem WF.lags {b : ByteArray α} (h : b.WF) : b.Lags 0 := ⟨h.lagging, h.nodes_pos⟩

namespace Lags

variable {b : ByteArray α} {lag : Nat}

theorem synced_wf (h : b.Lags lag) : b.synced.WF :=
  ⟨h.base_pos, h.uniform, h.nodes_pos, h.capacity_eq, h.position_le, h.size_le, rfl⟩

theorem length_cells (h : b.Lags lag) : b.cells.length = b.capacity := h.synced_wf.length_cells

theorem getReadSize_eq (h : b.Lags lag) : b.getReadSize = b.size - b.position :=
  h.synced_wf.getReadSize_eq

theorem getCapacity_eq (h : b.Lags lag) : b.getCapacity = b.capacity - b.position :=
  h.synced_wf.getCapacity_eq

/-- The lag does not reach before the first cell. -/
theorem mul_le (h : b.Lags lag) : lag * b.baseSize ≤ b.position := by
  have hmul := Nat.mul_le_mul_left b.baseSize h.lag_le
  have hdiv := Nat.mul_div_le b.position b.baseSize
  rw [Nat.mul_comm lag]
  omega

/-- A position below the capacity lies in an existing node. -/
theorem div_lt (h : b.Lags lag) {p : Nat} (hp : p < b.capacity) :
    p / b.baseSize < b.nodes.length := h.synced_wf.div_lt hp

/-- `m_cur` is right exactly when there is no lag. -/
theorem cur_eq_iff (h : b.Lags lag) : b.cur = b.nodeAt (b.position / b.baseSize) ↔ lag = 0 := by
  have hlag := h.lag_le
  constructor
  · intro hc
    by_cases hp : b.position < b.capacity
    · have hlt := h.div_lt hp
      rw [h.cur_eq, nodeAt_of_lt ((Nat.sub_le _ _).trans_lt hlt), nodeAt_of_lt hlt,
        Option.some.injEq] at hc
      omega
    · have hend : b.nodes.length ≤ b.position / b.baseSize := by
        rw [Nat.le_div_iff_mul_le h.base_pos, Nat.mul_comm, ← h.capacity_eq]
        omega
      rw [nodeAt_of_le hend] at hc
      exact (h.cur_none_iff.mp hc).1
  · rintro rfl
    exact h.cur_eq

/-- Without lag the layout is right. -/
theorem wf (h : b.Lags 0) : b.WF :=
  ⟨h.base_pos, h.uniform, h.nodes_pos, h.capacity_eq, h.position_le, h.size_le, h.cur_eq⟩

end Lags

/-! ## setPosition and clear -/

/-- `setPosition` starts from the root: the lag is gone. -/
theorem setPosition_lags {b : ByteArray α} {lag : Nat} (h : b.Lags lag) (pos : Nat)
    (hp : pos ≤ b.capacity) :
    ∃ b', b.setPosition pos = .ok b' ∧ b'.Lags 0 ∧ b'.position = pos ∧ b'.size = max b.size pos ∧
      b'.capacity = b.capacity ∧ b'.baseSize = b.baseSize ∧ b'.cells = b.cells := by
  have hset : b.setPosition pos =
      .ok { b with position := pos, size := max b.size pos,
                   cur := b.nodeAt (pos / b.baseSize) } := setPosition_spec h.synced_wf hp
  exact ⟨_, hset, (setPosition_wf h.synced_wf hset).lags, rfl, rfl, rfl, rfl, rfl⟩

theorem setPosition_of_capacity_lt {b : ByteArray α} {pos : Nat} (hp : b.capacity < pos) :
    b.setPosition pos = .error (.outOfRange "setPostion out of range") := if_pos hp

/-- What a `setPosition` that returns did. -/
theorem setPosition_inv {b b' : ByteArray α} {lag pos : Nat} (h : b.Lags lag)
    (hs : b.setPosition pos = .ok b') :
    b'.Lags 0 ∧ b'.position = pos ∧ b'.size = max b.size pos ∧ b'.capacity = b.capacity ∧
      b'.baseSize = b.baseSize ∧ b'.cells = b.cells := by
  by_cases hp : b.capacity < pos
  · rw [setPosition_of_capacity_lt hp] at hs
    cases hs
  · obtain ⟨c, hc, hrest⟩ := setPosition_lags h pos (Nat.le_of_not_lt hp)
    cases hc.symm.trans hs
    exact hrest

theorem clear_lags {b : ByteArray α} {lag : Nat} (h : b.Lags lag) : b.clear.Lags 0 :=
  (clear_wf h.synced_wf).lags

/-! ## addCapacity -/

theorem synced_addCapacity [Inhabited α] {b : ByteArray α} {lag : Nat} (h : b.Lags lag) (n : Nat) :
    (b.addCapacity n).synced = b.synced.addCapacity n := by
  rw [← (addCapacity_spec h.synced_wf n).1.synced_eq]
  have hcap : b.synced.getCapacity = b.getCapacity := rfl
  unfold addCapacity
  rw [hcap]
  split
  · rfl
  · split <;> rfl

/-- Growing leaves `m_cur` where it is, unless the buffer is full. -/
theorem cur_addCapacity [Inhabited α] (b : ByteArray α) {n : Nat} (hn : 0 < n) :
    (b.addCapacity n).cur = if b.getCapacity = 0 then some b.nodes.length else b.cur := by
  unfold addCapacity
  rw [if_neg (by omega)]
  by_cases h1 : n ≤ b.getCapacity
  · rw [if_pos h1, if_neg (by omega)]
  · rw [if_neg h1]

/-- The lag left when something is to be written: a full buffer gets its
`m_cur` put right. -/
def writeLag (b : ByteArray α) (lag : Nat) : Nat := if b.position = b.capacity then 0 else lag

theorem addCapacity_lags [Inhabited α] {b : ByteArray α} {lag n : Nat} (h : b.Lags lag)
    (hn : 0 < n) :
    (b.addCapacity n).Lags (b.writeLag lag) ∧ (b.addCapacity n).position = b.position ∧
      (b.addCapacity n).baseSize = b.baseSize ∧ (b.addCapacity n).size = b.size ∧
      b.capacity ≤ (b.addCapacity n).capacity ∧
      b.position + n ≤ (b.addCapacity n).capacity ∧
      (b.addCapacity n).cells =
        b.cells ++ List.replicate ((b.addCapacity n).capacity - b.capacity) default := by
  obtain ⟨hw, hpos, hbase, hsize, hgrow, hfit, hcells, -⟩ := addCapacity_spec h.synced_wf n
  rw [← synced_addCapacity h] at hw hpos hbase hsize hgrow hfit hcells
  change (b.addCapacity n).position = b.position at hpos
  change (b.addCapacity n).baseSize = b.baseSize at hbase
  change b.capacity ≤ (b.addCapacity n).capacity at hgrow
  change 0 < n → b.position + n ≤ (b.addCapacity n).capacity at hfit
  have hcapn : (b.addCapacity n).capacity =
      (b.addCapacity n).baseSize * (b.addCapacity n).nodes.length := hw.capacity_eq
  have hcur := cur_addCapacity b hn
  have hcap := h.getCapacity_eq
  have hle := h.position_le.trans h.size_le
  have hq : (b.addCapacity n).position / (b.addCapacity n).baseSize = b.position / b.baseSize :=
    congrArg₂ (· / ·) hpos hbase
  have hlags {l : Nat} (hl : l ≤ b.position / b.baseSize)
      (hc : (b.addCapacity n).cur = (b.addCapacity n).nodeAt (b.position / b.baseSize - l)) :
      (b.addCapacity n).Lags l :=
    ⟨⟨hw.base_pos, hw.uniform, hw.capacity_eq, hw.position_le, hw.size_le, by rwa [hq],
      by rwa [hq]⟩, hw.nodes_pos⟩
  refine ⟨?_, hpos, hbase, hsize, hgrow, hfit hn, hcells⟩
  rw [writeLag]
  split
  · next hp =>
      -- a full buffer: `m_cur` becomes the first of the new nodes
      apply hlags (Nat.zero_le _)
      rw [hcur, if_pos (by omega), hp, Nat.sub_zero, h.capacity_eq,
        Nat.mul_div_cancel_left _ h.base_pos, nodeAt_of_lt]
      have hfit := hfit hn
      rw [hp, h.capacity_eq, hcapn, hbase] at hfit
      exact Nat.lt_of_mul_lt_mul_left (a := b.baseSize) (by omega)
  · next hp =>
      -- the node of a lagging `m_cur` exists before and after the growth
      apply hlags h.lag_le
      have hlt := h.div_lt (p := b.position) (by omega)
      have hlt' : b.position / (b.addCapacity n).baseSize < (b.addCapacity n).nodes.length :=
        hw.div_lt (show b.position < (b.addCapacity n).capacity by omega)
      rw [hbase] at hlt'
      rw [hcur, if_neg (by omega), h.cur_eq, nodeAt_of_lt ((Nat.sub_le _ _).trans_lt hlt),
        nodeAt_of_lt ((Nat.sub_le _ _).trans_lt hlt')]

theorem addCapacity_of_le [Inhabited α] {b : ByteArray α} {lag n : Nat} (h : b.Lags lag)
    (hn : b.position + n ≤ b.capacity) : b.addCapacity n = b := by
  have hcap := h.getCapacity_eq
  unfold addCapacity
  split
  · rfl
  · rw [if_pos (by omega)]

/-! ## write -/

/-- **write** with a lagging `m_cur`: the position and the size move on as
they should, and `d` is stored as many nodes before the position as `m_cur`
lags. -/
theorem write_lags [Inhabited α] {b : ByteArray α} {lag : Nat} (h : b.Lags lag) {d : List α}
    (hd : d ≠ []) :
    ∃ b', b.write d = .ok b' ∧ b'.Lags (b.writeLag lag) ∧
      b'.position = b.position + d.length ∧
      b'.baseSize = b.baseSize ∧
      b'.size = max b.size (b.position + d.length) ∧
      b'.capacity = (b.addCapacity d.length).capacity ∧
      b'.cells = splice (b.position - b.writeLag lag * b.baseSize) d
        (b.addCapacity d.length).cells := by
  have hdl := List.length_pos_of_ne_nil hd
  obtain ⟨hw, hpos, hbase, hsize, -, hfit, -⟩ := addCapacity_lags h hdl
  generalize b.writeLag lag = l at *
  generalize hc : b.addCapacity d.length = c at *
  have hi : c.position / c.baseSize < c.nodes.length := hw.div_lt (by omega)
  have hl := hw.lag_le
  have hback := hw.sub_mul
  have hmod := Nat.mod_lt c.position hw.base_pos
  have hdm := Nat.div_add_mod c.position c.baseSize
  have hadv := add_div_eq hw.base_pos c.position d.length
  generalize hqd : c.position / c.baseSize = i at *
  generalize hrd : c.position % c.baseSize = o at *
  obtain ⟨chain, hrun, hflat, hu, hlen⟩ := writeNodes_at (j := i - l) hw.uniform hmod hd
    (by rw [← hw.capacity_eq]; omega)
  refine ⟨{ c with
      nodes := c.nodes.take (i - l) ++ chain
      cur := c.nodeAt (i - l + (o + d.length) / c.baseSize)
      position := c.position + d.length
      size := max c.size (c.position + d.length) }, ?_, ⟨⟨hw.base_pos, hu, ?_, ?_, ?_, ?_, ?_⟩, ?_⟩,
    ?_, hbase, ?_, rfl, ?_⟩
  · have hnode : c.cur = some (i - l) := by
      rw [hw.cur_eq, hqd, nodeAt_of_lt (by omega)]
    simp only [write, if_neg hd, hc, hnode, hrd, hrun]
  · rw [hlen]
    exact hw.capacity_eq
  · exact Nat.le_max_right _ _
  · have := hw.size_le
    simp only
    omega
  · simp only [hadv]
    exact hl.trans (Nat.le_add_right _ _)
  · simp only [nodeAt, hlen, hadv, Nat.sub_add_comm hl]
  · rw [hlen]
    exact hw.nodes_pos
  · rw [hpos]
  · rw [hpos, hsize]
  · rw [cells, hflat, ← hback, hpos, hbase, cells]

theorem write_nil [Inhabited α] (b : ByteArray α) : b.write [] = .ok b := if_pos rfl

/-- What a write that returns did. -/
theorem write_inv [Inhabited α] {b b' : ByteArray α} {lag : Nat} (h : b.Lags lag) {d : List α}
    (hd : d ≠ []) (hw : b.write d = .ok b') :
    b'.Lags (b.writeLag lag) ∧ b'.position = b.position + d.length ∧
      b'.baseSize = b.baseSize ∧ b'.size = max b.size (b.position + d.length) ∧
      b'.capacity = (b.addCapacity d.length).capacity ∧
      b'.cells = splice (b.position - b.writeLag lag * b.baseSize) d
        (b.addCapacity d.length).cells := by
  obtain ⟨c, hc, hrest⟩ := write_lags h hd
  cases hc.symm.trans hw
  exact hrest

/-! ## read -/

/-- **Reading back**: a read that returns took `n` of the cells below the size
and changed nothing but the cursor. -/
theorem read_lags {b b' : ByteArray α} {lag n : Nat} {out : List α} (h : b.Lags lag)
    (hr : b.read n = .ok (out, b')) :
    (∃ lag', b'.Lags lag') ∧ b'.size = b.size ∧ b'.cells = b.cells ∧
      ∀ c ∈ out, c ∈ b.content := by
  have hsize := h.getReadSize_eq
  have hle := h.position_le
  have hn : b.position + n ≤ b.size := by
    by_contra hc
    rw [read, if_pos (by omega)] at hr
    cases hr
  have hcur : n = 0 → lag = 0 → b.position < b.capacity := by
    rintro rfl rfl
    by_contra hc
    rw [read_null h.toLagging (by have := h.size_le; omega)] at hr
    cases hr
  obtain ⟨c, hread, hlag, -, -, hcs, -, hnodes⟩ := read_spec h.toLagging hn hcur
  rw [hread] at hr
  cases hr
  refine ⟨⟨_, hlag, by rw [hnodes]; exact h.nodes_pos⟩, hcs, by rw [cells, cells, hnodes], ?_⟩
  intro c hc
  have hsub : behind b.baseSize b.cells lag b.position n =
      ((b.content.drop (b.position - lag * b.baseSize)).take n) := by
    rw [take_drop_content (by omega), behind]
  rw [hsub] at hc
  exact List.mem_of_mem_drop (List.mem_of_mem_take hc)

/-- A read of more than is left throws. -/
theorem read_of_size_lt {b : ByteArray α} {lag n : Nat} (h : b.Lags lag)
    (hn : b.size < b.position + n) :
    b.read n = .error (.outOfRange "not enough data to read") := by
  have hle := h.position_le
  have hsize := h.getReadSize_eq
  rw [read, if_pos (by omega)]

theorem readAll_lags {b b' : ByteArray α} {lag : Nat} {ns : List Nat} {outs : List (List α)}
    (h : b.Lags lag) (hr : b.readAll ns = .ok (outs, b')) :
    (∃ lag', b'.Lags lag') ∧ b'.size = b.size ∧ b'.cells = b.cells ∧
      ∀ c ∈ outs.flatten, c ∈ b.content := by
  induction ns generalizing b lag outs with
  | nil =>
      cases hr
      exact ⟨⟨lag, h⟩, rfl, rfl, by simp⟩
  | cons n ns ih =>
      rw [readAll] at hr
      cases hread : b.read n with
      | error e => rw [hread] at hr; cases hr
      | ok r =>
          obtain ⟨out, c⟩ := r
          cases hrest : c.readAll ns with
          | error e => simp only [hread, hrest] at hr; cases hr
          | ok r' =>
              obtain ⟨outs', c'⟩ := r'
              simp only [hread, hrest, Except.ok.injEq, Prod.mk.injEq] at hr
              obtain ⟨rfl, rfl⟩ := hr
              obtain ⟨⟨lag', hlag'⟩, hs, hcells, hout⟩ := read_lags h hread
              obtain ⟨hlag'', hs', hcells', hout'⟩ := ih hlag' hrest
              refine ⟨hlag'', hs'.trans hs, hcells'.trans hcells, fun x hx => ?_⟩
              rcases List.mem_append.mp hx with hx | hx
              · exact hout x hx
              · have hx := hout' x hx
                rwa [content, hcells, hs] at hx

/-- The positional read returns the cells at its position, unless that is the
end of the chain. -/
theorem readAt_lags {b : ByteArray α} {lag n p : Nat} (h : b.Lags lag) (hn : p + n ≤ b.size)
    (hp : p < b.capacity) : b.readAt n p = .ok ((b.cells.drop p).take n) := by
  have hsize := h.size_le
  have hdm := Nat.div_add_mod p b.baseSize
  have hmod := Nat.mod_lt p h.base_pos
  have hlt := h.div_lt hp
  have hfit : p % b.baseSize + n ≤ b.baseSize * (b.nodes.drop (p / b.baseSize)).length := by
    rw [List.length_drop, Nat.mul_sub, ← h.capacity_eq]
    omega
  have hread := readNodes_spec (h.uniform.drop (p / b.baseSize)) hmod hfit
  rw [← drop_flatten h.uniform, List.drop_drop, hdm] at hread
  rw [readAt, if_neg (by rw [sizeSub_of_le (by omega)]; omega)]
  cases hchain : b.nodes.drop (p / b.baseSize) with
  | nil =>
      have := congrArg List.length hchain
      rw [List.length_drop, List.length_nil] at this
      omega
  | cons node rest =>
      rw [hchain] at hread
      simp only [hread, Except.map, cells]

/-- At the end of the chain the walk from the root meets the null pointer. -/
theorem Lags.toString_end {b : ByteArray α} {lag : Nat} (h : b.Lags lag)
    (hp : b.capacity ≤ b.position) : b.toString = .error .nullNode := by
  have hend : b.nodes.drop (b.position / b.baseSize) = [] := by
    apply List.drop_eq_nil_of_le
    rw [Nat.le_div_iff_mul_le h.base_pos, Nat.mul_comm, ← h.capacity_eq]
    exact hp
  rw [toString, readAt, sizeSub_of_le h.position_le, h.getReadSize_eq,
    if_neg (Nat.lt_irrefl _), hend]

/-- What `toString` returns is the rest of the content. -/
theorem toString_lags {b : ByteArray α} {lag : Nat} (h : b.Lags lag) {out : List α}
    (ht : b.toString = .ok out) : out = b.content.drop b.position := by
  have hle := h.position_le
  have hsize := h.size_le
  have hread := h.getReadSize_eq
  by_cases hp : b.position < b.capacity
  · rw [toString, readAt_lags h (by omega) hp] at ht
    cases ht
    rw [hread, content, List.drop_take]
  · rw [h.toString_end (Nat.le_of_not_lt hp)] at ht
    cases ht

end ByteArray
end XzmjxRpc
