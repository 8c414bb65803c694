import XzmjxRpc.Utils.ByteArray

/-!
# XzmjxRpc.Utils.ByteArray.Invariant

What holds of a `ByteArray` after any sequence of `write`, `setPosition` and
`clear`: the offset and the node pointer agree, and the chain has exactly the
nodes its capacity says (`WF`).  Each operation gets one specification lemma
(`addCapacity_spec`, `write_spec`, `setPosition_spec`, `clear_spec`) from which
everything later is derived, so the loops are unfolded only here.
-/

namespace XzmjxRpc
namespace ByteArray

open Blocks

variable {α : Type u}

/-- The layout invariant: equal nodes, as many as the capacity says, position
and size inside it, and `m_cur` at the node the position lies in. -/
structure WF (b : ByteArray α) : Prop where
  base_pos : 0 < b.baseSize
  uniform : Uniform b.baseSize b.nodes
  nodes_pos : 0 < b.nodes.length
  capacity_eq : b.capacity = b.baseSize * b.nodes.length
  position_le : b.position ≤ b.size
  size_le : b.size ≤ b.capacity
  cur_eq : b.cur = b.nodeAt (b.position / b.baseSize)

theorem sizeSub_of_le {a b : Nat} (h : b ≤ a) : sizeSub a b = a - b := if_pos h

theorem nodeAt_of_lt {b : ByteArray α} {i : Nat} (h : i < b.nodes.length) :
    b.nodeAt i = some i := if_pos h

theorem nodeAt_of_le {b : ByteArray α} {i : Nat} (h : b.nodes.length ≤ i) : b.nodeAt i = none :=
  if_neg (by omega)

namespace WF

variable {b : ByteArray α}

theorem getReadSize_eq (h : b.WF) : b.getReadSize = b.size - b.position :=
  sizeSub_of_le h.position_le

theorem getCapacity_eq (h : b.WF) : b.getCapacity = b.capacity - b.position :=
  sizeSub_of_le (h.position_le.trans h.size_le)

theorem length_cells (h : b.WF) : b.cells.length = b.capacity := by
  rw [cells, length_flatten h.uniform, h.capacity_eq]

theorem length_content (h : b.WF) : b.content.length = b.size := by
  have := h.size_le
  rw [content, List.length_take, h.length_cells]
  omega

/-- A position below the capacity lies in an existing node. -/
theorem div_lt (h : b.WF) {p : Nat} (hp : p < b.capacity) : p / b.baseSize < b.nodes.length := by
  rw [h.capacity_eq] at hp
  exact Nat.div_lt_of_lt_mul hp

/-- The position is the capacity exactly when the node pointer is null. -/
theorem cur_eq_ite (h : b.WF) :
    b.cur = if b.position = b.capacity then none else some (b.position / b.baseSize) := by
  have hle := h.position_le.trans h.size_le
  rw [h.cur_eq]
  split
  · next hp =>
      rw [hp, h.capacity_eq, Nat.mul_div_cancel_left _ h.base_pos]
      exact nodeAt_of_le (Nat.le_refl _)
  · next hp => exact nodeAt_of_lt (h.div_lt (by omega))

end WF

/-! ## addCapacity -/

/-- Whole nodes until `x` cells fit: the count that `addCapacity` reaches. -/
theorem length_add_ceilDiv {k n x : Nat} (hk : 0 < k) (hx : k * n < x) :
    n + (x - k * n) ⌈/⌉ k = x ⌈/⌉ k := by
  rw [Nat.ceilDiv_eq_add_pred_div, Nat.ceilDiv_eq_add_pred_div]
  have h : x + k - 1 = (x - k * n + k - 1) + k * n := by omega
  rw [h, Nat.add_mul_div_left _ _ hk]
  omega

theorem ceilDiv_le_of_le {k n x : Nat} (hk : 0 < k) (hx : x ≤ k * n) : x ⌈/⌉ k ≤ n :=
  (ceilDiv_le_iff_le_mul hk).mpr hx

section
variable [Inhabited α] {b : ByteArray α}

/-- The buffer with `k` untouched nodes more. -/
def grow (b : ByteArray α) (k : Nat) : ByteArray α :=
  { b with
    nodes := b.nodes ++ List.replicate k (List.replicate b.baseSize default)
    capacity := b.capacity + k * b.baseSize
    cur := if b.getCapacity = 0 then some b.nodes.length else b.cur }

theorem length_nodes_grow (b : ByteArray α) (k : Nat) :
    (b.grow k).nodes.length = b.nodes.length + k := by
  rw [grow, List.length_append, List.length_replicate]

theorem cells_grow (b : ByteArray α) (k : Nat) :
    (b.grow k).cells = b.cells ++ List.replicate (k * b.baseSize) default := by
  rw [cells, grow, List.flatten_append, List.flatten_replicate_replicate, cells]

/-- Growing a full buffer moves `m_cur` to the first of the new nodes. -/
theorem grow_wf (h : b.WF) {k : Nat} (hk : 0 < k) : (b.grow k).WF where
  base_pos := h.base_pos
  uniform := uniform_append.mpr ⟨h.uniform, uniform_replicate _ _ _⟩
  nodes_pos := by
    rw [length_nodes_grow]
    omega
  capacity_eq := by
    show b.capacity + k * b.baseSize = b.baseSize * (b.grow k).nodes.length
    rw [length_nodes_grow, Nat.mul_add, ← h.capacity_eq, Nat.mul_comm k]
  position_le := h.position_le
  size_le := h.size_le.trans (Nat.le_add_right _ _)
  cur_eq := by
    have hcap := h.getCapacity_eq
    have hle := h.position_le.trans h.size_le
    rw [nodeAt, length_nodes_grow]
    show (if b.getCapacity = 0 then some b.nodes.length else b.cur) =
      if b.position / b.baseSize < b.nodes.length + k then some (b.position / b.baseSize) else none
    split
    · next hz =>
        have hpos : b.position = b.baseSize * b.nodes.length := by
          rw [← h.capacity_eq]
          omega
        rw [hpos, Nat.mul_div_cancel_left _ h.base_pos, if_pos (by omega)]
    · next hz =>
        have hd := h.div_lt (p := b.position) (by omega)
        rw [h.cur_eq, nodeAt_of_lt hd, if_pos (by omega)]

/-- The cells are there already, or nodes are appended until they are. -/
theorem addCapacity_cases (h : b.WF) {n : Nat} (hn : 0 < n) :
    (b.position + n ≤ b.capacity ∧ b.addCapacity n = b) ∨
    ∃ k, 0 < k ∧ b.nodes.length + k = (b.position + n) ⌈/⌉ b.baseSize ∧
      b.addCapacity n = b.grow k := by
  have hle := h.position_le.trans h.size_le
  have hcap := h.getCapacity_eq
  unfold addCapacity
  rw [if_neg (by omega)]
  by_cases h1 : n ≤ b.getCapacity
  · exact .inl ⟨by omega, if_pos h1⟩
  · rw [if_neg h1]
    have hx : b.baseSize * b.nodes.length < b.position + n := by
      rw [← h.capacity_eq]
      omega
    have hmiss : n - b.getCapacity = b.position + n - b.baseSize * b.nodes.length := by
      rw [← h.capacity_eq]
      omega
    have hcount := length_add_ceilDiv h.base_pos hx
    rw [← hmiss] at hcount
    have hlt : b.nodes.length < (b.position + n) ⌈/⌉ b.baseSize := by
      by_contra hc
      have := (ceilDiv_le_iff_le_mul h.base_pos).mp (Nat.le_of_not_lt hc)
      omega
    exact .inr ⟨_, by omega, hcount, rfl⟩

/-- `addCapacity` appends untouched nodes until `n` cells fit at the position,
and changes neither position nor size. -/
theorem addCapacity_spec (h : b.WF) (n : Nat) :
    (b.addCapacity n).WF ∧
    (b.addCapacity n).position = b.position ∧
    (b.addCapacity n).baseSize = b.baseSize ∧
    (b.addCapacity n).size = b.size ∧
    b.capacity ≤ (b.addCapacity n).capacity ∧
    (0 < n → b.position + n ≤ (b.addCapacity n).capacity) ∧
    (b.addCapacity n).cells =
      b.cells ++ List.replicate ((b.addCapacity n).capacity - b.capacity) default ∧
    (0 < n → (b.addCapacity n).nodes.length =
      max b.nodes.length ((b.position + n) ⌈/⌉ b.baseSize)) := by
  rcases Nat.eq_zero_or_pos n with rfl | hn
  · rw [addCapacity, if_pos rfl]
    exact ⟨h, rfl, rfl, rfl, Nat.le_refl _, fun h0 => absurd h0 (Nat.lt_irrefl 0), by simp,
      fun h0 => absurd h0 (Nat.lt_irrefl 0)⟩
  · rcases addCapacity_cases h hn with ⟨hfit, heq⟩ | ⟨k, hk, hcount, heq⟩
    · rw [heq]
      have hceil := ceilDiv_le_of_le h.base_pos (h.capacity_eq ▸ hfit)
      exact ⟨h, rfl, rfl, rfl, Nat.le_refl _, fun _ => hfit, by simp, fun _ => by omega⟩
    · rw [heq]
      have hw := grow_wf h hk
      have hfit : b.position + n ≤ (b.grow k).capacity := by
        rw [hw.capacity_eq, length_nodes_grow, hcount]
        exact (ceilDiv_le_iff_le_mul h.base_pos).mp (Nat.le_refl _)
      refine ⟨hw, rfl, rfl, rfl, Nat.le_add_right _ _, fun _ => hfit, ?_, fun _ => ?_⟩
      · rw [cells_grow, grow, Nat.add_sub_cancel_left]
      · rw [length_nodes_grow]
        omega

end

/-! ## write -/

theorem writeNodes_cons {npos : Nat} {node : List α} {rest : List (List α)} {d : List α}
    (hd : d ≠ []) :
    writeNodes npos (node :: rest) d =
      if d.length ≤ node.length - npos then
        .ok (splice npos d node :: rest, if node.length = npos + d.length then 1 else 0)
      else
        match writeNodes 0 rest (d.drop (node.length - npos)) with
        | .ok (rest', k) => .ok (splice npos (d.take (node.length - npos)) node :: rest', k + 1)
        | .error e => .error e := by
  cases d with
  | nil => exact absurd rfl hd
  | cons x xs => rfl

/-- Inside one node, the quotient of the end offset is the end test of the
loops. -/
theorem add_div_of_le {k o n : Nat} (hk : 0 < k) (h : o + n ≤ k) :
    (o + n) / k = if k = o + n then 1 else 0 := by
  split
  · next he => rw [← he, Nat.div_self hk]
  · exact Nat.div_eq_of_lt (by omega)

/-- How many nodes `n` cells more are. -/
theorem add_div_eq {k : Nat} (hk : 0 < k) (p n : Nat) :
    (p + n) / k = p / k + (p % k + n) / k := by
  have hdm := Nat.div_add_mod p k
  conv => lhs; rw [← hdm, Nat.add_assoc, Nat.mul_add_div hk]

/-- Passing the end of the first node takes one node off the quotient. -/
theorem sub_div_succ {k o n : Nat} (hk : 0 < k) (ho : o ≤ k) (h : k - o ≤ n) :
    (0 + (n - (k - o))) / k + 1 = (o + n) / k := by
  rw [← Nat.add_div_right _ hk]
  congr 1
  omega

/-- The write loop stores `d` at offset `npos` of the flattened chain and moves
`m_cur` to the node after the last stored cell. -/
theorem writeNodes_spec {base npos : Nat} {chain : List (List α)} {d : List α}
    (hu : Uniform base chain) (hn : npos < base) (hd : d ≠ [])
    (hfit : npos + d.length ≤ base * chain.length) :
    ∃ chain', writeNodes npos chain d = .ok (chain', (npos + d.length) / base) ∧
      chain'.flatten = splice npos d chain.flatten ∧ Uniform base chain' ∧
      chain'.length = chain.length := by
  induction chain generalizing npos d with
  | nil =>
      have := List.length_pos_of_ne_nil hd
      simp only [List.length_nil] at hfit
      omega
  | cons node rest ih =>
      obtain ⟨hnode, hrest⟩ := uniform_cons.mp hu
      rw [writeNodes_cons hd, hnode]
      by_cases hc : d.length ≤ base - npos
      · rw [if_pos hc, add_div_of_le (by omega) (by omega)]
        refine ⟨_, rfl, ?_, ?_, rfl⟩
        · rw [List.flatten_cons, List.flatten_cons, splice_append_of_le (by omega)]
        · exact uniform_cons.mpr ⟨by rw [length_splice_of_le (by omega), hnode], hrest⟩
      · rw [if_neg hc]
        have htake : (d.take (base - npos)).length = base - npos := by
          rw [List.length_take]; omega
        have hne : d.drop (base - npos) ≠ [] := by
          intro h0
          have := congrArg List.length h0
          rw [List.length_drop, List.length_nil] at this
          omega
        have hfit' : 0 + (d.drop (base - npos)).length ≤ base * rest.length := by
          rw [List.length_cons, Nat.mul_succ] at hfit
          rw [List.length_drop]
          omega
        obtain ⟨rest', hrun, hflat, hu', hlen⟩ := ih hrest (by omega) hne hfit'
        rw [hrun]
        refine ⟨splice npos (d.take (base - npos)) node :: rest', ?_, ?_, ?_, ?_⟩
        · rw [List.length_drop, ← sub_div_succ (k := base) (o := npos) (by omega) (by omega)
            (by omega)]
        · rw [List.flatten_cons, List.flatten_cons, hflat,
            ← splice_append_cross (by rw [htake]; omega), List.take_append_drop]
        · exact uniform_cons.mpr ⟨by rw [length_splice_of_le (by omega), hnode], hu'⟩
        · rw [List.length_cons, List.length_cons, hlen]

/-- The write loop from node `j` on, seen from the whole chain. -/
theorem writeNodes_at {base npos j : Nat} {nodes : List (List α)} {d : List α}
    (hu : Uniform base nodes) (hn : npos < base) (hd : d ≠ [])
    (hfit : base * j + npos + d.length ≤ base * nodes.length) :
    ∃ chain, writeNodes npos (nodes.drop j) d = .ok (chain, (npos + d.length) / base) ∧
      (nodes.take j ++ chain).flatten = splice (base * j + npos) d nodes.flatten ∧
      Uniform base (nodes.take j ++ chain) ∧ (nodes.take j ++ chain).length = nodes.length := by
  have hdl := List.length_pos_of_ne_nil hd
  have hj : j < nodes.length := Nat.lt_of_mul_lt_mul_left (a := base) (by omega)
  have hsplit : base * nodes.length = base * j + base * (nodes.length - j) := by
    rw [← Nat.mul_add, Nat.add_sub_cancel' hj.le]
  obtain ⟨chain, hrun, hflat, hu', hlen⟩ := writeNodes_spec (hu.drop j) hn hd
    (by rw [List.length_drop]; omega)
  refine ⟨chain, hrun, ?_, uniform_append.mpr ⟨hu.take j, hu'⟩, ?_⟩
  · rw [List.flatten_append, hflat, flatten_take_append_splice hu hj.le]
  · rw [List.length_append, List.length_take, hlen, List.length_drop]
    omega

/-- **write**: never steps past the last node, keeps the layout, and stores
exactly `d` at the position. -/
theorem write_spec [Inhabited α] {b : ByteArray α} (h : b.WF) {d : List α} (hd : d ≠ []) :
    ∃ b', b.write d = .ok b' ∧ b'.WF ∧
      b'.position = b.position + d.length ∧
      b'.baseSize = b.baseSize ∧
      b'.capacity = (b.addCapacity d.length).capacity ∧
      b'.size = max b.size (b.position + d.length) ∧
      b'.nodes.length = max b.nodes.length ((b.position + d.length) ⌈/⌉ b.baseSize) ∧
      b'.cells = splice b.position d (b.addCapacity d.length).cells := by
  have hdl := List.length_pos_of_ne_nil hd
  obtain ⟨hw, hpos, hbase, hsize, hgrow, hfit, -, hnodes⟩ := addCapacity_spec h d.length
  have hfit := hfit hdl
  have hnodes := hnodes hdl
  generalize hc : b.addCapacity d.length = c at *
  have hi : c.position / c.baseSize < c.nodes.length := hw.div_lt (by omega)
  have hdm := Nat.div_add_mod c.position c.baseSize
  have hmod := Nat.mod_lt c.position hw.base_pos
  have hadv := add_div_eq hw.base_pos c.position d.length
  generalize hqd : c.position / c.baseSize = i at *
  generalize hrd : c.position % c.baseSize = o at *
  obtain ⟨chain, hrun, hflat, hu, hlen⟩ := writeNodes_at (j := i) hw.uniform hmod hd
    (by rw [← hw.capacity_eq]; omega)
  refine ⟨{ c with
      nodes := c.nodes.take i ++ chain
      cur := c.nodeAt (i + (o + d.length) / c.baseSize)
      position := c.position + d.length
      size := max c.size (c.position + d.length) }, ?_, ?_, ?_, hbase, rfl, ?_, ?_, ?_⟩
  · simp only [write, if_neg hd, hc, hw.cur_eq, hqd, nodeAt_of_lt hi, hrd, hrun]
  · refine ⟨hw.base_pos, hu, ?_, ?_, ?_, ?_, ?_⟩
    · rw [hlen]; exact hw.nodes_pos
    · rw [hlen]; exact hw.capacity_eq
    · exact Nat.le_max_right _ _
    · have := hw.size_le
      simp only
      omega
    · simp only [hadv, nodeAt, hlen]
  · rw [hpos]
  · rw [hpos, hsize]
  · rw [hlen, hnodes]
  · rw [cells, hflat, hdm, hpos, cells]

/-! ## setPosition and clear -/

/-- The loop of `setPosition` stops at the node of the position. -/
theorem seek_spec {base pos : Nat} {chain : List (List α)} (hbase : 0 < base)
    (hu : Uniform base chain) (hne : chain ≠ []) (hpos : pos ≤ base * chain.length) :
    seek chain pos = .ok (pos / base) := by
  induction chain generalizing pos with
  | nil => exact absurd rfl hne
  | cons node rest ih =>
      obtain ⟨hnode, hrest⟩ := uniform_cons.mp hu
      have hlast (hle : pos ≤ base) : (if pos = node.length then 1 else 0) = pos / base := by
        have h := add_div_of_le (k := base) (o := 0) (n := pos) hbase (by omega)
        rw [Nat.zero_add] at h
        rw [h, hnode]
        simp only [eq_comm]
      cases rest with
      | nil =>
          simp only [List.length_cons, List.length_nil, Nat.zero_add, Nat.mul_one] at hpos
          rw [seek, if_neg (by omega), hlast hpos]
      | cons next rest =>
          rw [seek]
          by_cases hc : node.length < pos
          · have hnext := (uniform_cons.mp hrest).1
            rw [List.length_cons, Nat.mul_succ] at hpos
            rw [if_pos hc, ih hrest (by simp) (by omega), hnext]
            simp only [Except.ok.injEq]
            rw [← Nat.add_div_right _ hbase]
            congr 1
            omega
          · rw [if_neg hc, hlast (by omega)]

/-- **setPosition** inside the capacity: the cells stay, the size grows to the
position if it lies beyond. -/
theorem setPosition_spec {b : ByteArray α} (h : b.WF) {pos : Nat} (hp : pos ≤ b.capacity) :
    b.setPosition pos =
      .ok { b with position := pos, size := max b.size pos,
                   cur := b.nodeAt (pos / b.baseSize) } := by
  have hne : b.nodes ≠ [] := List.ne_nil_of_length_pos h.nodes_pos
  rw [setPosition, if_neg (by omega),
    seek_spec h.base_pos h.uniform hne (by rw [← h.capacity_eq]; exact hp)]

theorem setPosition_wf {b b' : ByteArray α} (h : b.WF) {pos : Nat}
    (hs : b.setPosition pos = .ok b') : b'.WF := by
  by_cases hp : b.capacity < pos
  · rw [setPosition, if_pos hp] at hs
    cases hs
  · have hle := h.size_le
    rw [setPosition_spec h (by omega)] at hs
    cases hs
    exact ⟨h.base_pos, h.uniform, h.nodes_pos, h.capacity_eq, Nat.le_max_right _ _,
      by simp only; omega, rfl⟩

theorem clear_wf {b : ByteArray α} (h : b.WF) : b.clear.WF := by
  have hpos := h.nodes_pos
  have hlen : (b.nodes.take 1).length = 1 := by rw [List.length_take]; omega
  refine ⟨h.base_pos, h.uniform.take 1, ?_, ?_, Nat.le_refl _, Nat.zero_le _, ?_⟩
  · simp only [clear, hlen, Nat.lt_add_one]
  · simp only [clear, hlen, Nat.mul_one]
  · simp only [clear, nodeAt, hlen, Nat.zero_div, Nat.lt_add_one, if_true]

/-! ## every reachable buffer -/

theorem new_wf [Inhabited α] {base : Nat} (hbase : 0 < base) : (new base : ByteArray α).WF := by
  refine ⟨hbase, ?_, Nat.zero_lt_one, ?_, Nat.le_refl _, Nat.zero_le _, ?_⟩
  · exact uniform_replicate base 1 default
  · simp [new]
  · simp [new, nodeAt]

/-- The operations that a buffer is filled and repositioned with. -/
inductive Op (α : Type u) where
  | write (d : List α)
  | setPosition (pos : Nat)
  | clear

/-- One operation, when it returns. -/
def Step [Inhabited α] (b : ByteArray α) : Op α → ByteArray α → Prop
  | .write d, b' => b.write d = .ok b'
  | .setPosition pos, b' => b.setPosition pos = .ok b'
  | .clear, b' => b' = b.clear

/-- `b` is reached from a fresh `ByteArray(base)` by writes, `setPosition` and
`clear`. -/
def Reachable [Inhabited α] (base : Nat) (b : ByteArray α) : Prop :=
  ∃ ops, Lts.Run Step (new base) ops b

theorem write_wf [Inhabited α] {b b' : ByteArray α} (h : b.WF) {d : List α}
    (hs : b.write d = .ok b') : b'.WF ∧ b'.baseSize = b.baseSize := by
  by_cases hd : d = []
  · rw [write, if_pos hd] at hs
    cases hs
    exact ⟨h, rfl⟩
  · obtain ⟨c, hc, hw, -, hbase, -⟩ := write_spec h hd
    rw [hc] at hs
    cases hs
    exact ⟨hw, hbase⟩

theorem setPosition_baseSize {b b' : ByteArray α} {pos : Nat} (hs : b.setPosition pos = .ok b') :
    b'.baseSize = b.baseSize := by
  unfold setPosition at hs
  split at hs
  · cases hs
  · split at hs
    · cases hs
    · cases hs
      rfl

/-- Every operation keeps the layout invariant and the node size. -/
theorem step_wf [Inhabited α] {b b' : ByteArray α} {op : Op α} (h : b.WF) (hs : Step b op b') :
    b'.WF ∧ b'.baseSize = b.baseSize := by
  cases op with
  | write d => exact write_wf h hs
  | setPosition pos => exact ⟨setPosition_wf h hs, setPosition_baseSize hs⟩
  | clear =>
      cases hs
      exact ⟨clear_wf h, rfl⟩

/-- Every reachable buffer has the layout invariant. -/
theorem Reachable.wf [Inhabited α] {base : Nat} {b : ByteArray α} (hbase : 0 < base)
    (h : Reachable base b) : b.WF ∧ b.baseSize = base := by
  obtain ⟨ops, hrun⟩ := h
  refine Lts.Run.invariant (I := fun b => b.WF ∧ b.baseSize = base) ⟨new_wf hbase, rfl⟩ ?_ hrun
  rintro b op b' ⟨hw, hb⟩ hs
  obtain ⟨hw', hb'⟩ := step_wf hw hs
  exact ⟨hw', by rw [hb', hb]⟩

/-! ## the effect of a write -/

/-- What `write(d)` is meant to do to a buffer with nodes of `base` cells. -/
structure WriteEffect (base : Nat) (b : ByteArray α) (d : List α) (b' : ByteArray α) : Prop where
  stored : (b'.cells.drop b.position).take d.length = d
  frame : ∀ i < b.capacity, i < b.position ∨ b.position + d.length ≤ i →
    b'.cells[i]? = b.cells[i]?
  position : b'.position = b.position + d.length
  size : b'.size = max b.size (b.position + d.length)
  length_nodes : b'.nodes.length = max b.nodes.length ((b.position + d.length) ⌈/⌉ base)

theorem write_effect [Inhabited α] {b : ByteArray α} (h : b.WF) (d : List α) :
    ∃ b', b.write d = .ok b' ∧ WriteEffect b.baseSize b d b' := by
  have hle := h.position_le.trans h.size_le
  by_cases hd : d = []
  · subst hd
    refine ⟨b, by rw [write, if_pos rfl], rfl, fun _ _ _ => rfl, rfl, ?_, ?_⟩
    · simpa using h.position_le
    · have := ceilDiv_le_of_le (x := b.position) h.base_pos (by rw [← h.capacity_eq]; exact hle)
      simpa using this
  · obtain ⟨b', hrun, -, hpos, -, -, hsize, hnodes, hcells⟩ := write_spec h hd
    obtain ⟨hw, -, -, -, hgrow, -, hadd, -⟩ := addCapacity_spec h d.length
    have hlen := hw.length_cells
    refine ⟨b', hrun, ?_, ?_, hpos, hsize, hnodes⟩
    · rw [hcells, take_drop_splice (by omega)]
    · intro i hi hout
      rw [hcells, getElem?_splice (by omega), if_neg (by omega), hadd,
        List.getElem?_append_left (by rw [h.length_cells]; exact hi)]

/-- **The buffer invariant**: in every state that writes, `setPosition` within
the capacity and `clear` lead to, position ≤ size ≤ capacity, the capacity is
the nodes' total size and `m_cur` is the node of the position; none of these
operations fails there, and a write has exactly its effect. -/
theorem reachable_layout [Inhabited α] {base : Nat} (hbase : 0 < base) {b : ByteArray α}
    (h : Reachable base b) :
    (b.position ≤ b.size ∧ b.size ≤ b.capacity ∧ b.capacity = base * b.nodes.length ∧
      b.cur = if b.position = b.capacity then none else some (b.position / base)) ∧
    (∀ pos ≤ b.capacity, ∃ b', b.setPosition pos = .ok b') ∧
    ∀ d, ∃ b', b.write d = .ok b' ∧ WriteEffect base b d b' := by
  obtain ⟨hw, rfl⟩ := h.wf hbase
  exact ⟨⟨hw.position_le, hw.size_le, hw.capacity_eq, hw.cur_eq_ite⟩,
    fun pos hp => ⟨_, setPosition_spec hw hp⟩, write_effect hw⟩

/-- Two nodes of four cells, filled, overwritten across the border and left at
the end of the second node. -/
theorem reachable_layout_two_nodes :
    ∃ b : ByteArray UInt8, Reachable 4 b ∧ b.position = 8 ∧ b.capacity = 8 ∧ b.cur = none ∧
      ∃ b', b.write [9] = .ok b' ∧ WriteEffect 4 b [9] b' := by
  have hrun : Lts.Run Step (new 4 : ByteArray UInt8)
      ([.write [1, 2, 3, 4, 5, 6]] ++ [.setPosition 3] ++ [.write [7, 7, 7, 7, 7]])
      ⟨8, 4, 8, 8, [[1, 2, 3, 7], [7, 7, 7, 7]], none⟩ :=
    .snoc (.snoc (.snoc .nil rfl) rfl) rfl
  exact ⟨_, ⟨_, hrun⟩, rfl, rfl, rfl, (reachable_layout (by decide) ⟨_, hrun⟩).2.2 [9]⟩

end ByteArray
end XzmjxRpc
