import XzmjxRpc.Utils.ByteArray.Invariant

/-!
# XzmjxRpc.Utils.ByteArray.Read

The cursor `read`.  A read that ends at the end of a node moves `m_cur` on
only if it took the whole node (`m_cur->size == size`); one that started
inside the node leaves `m_cur` behind, one node further back each time it
happens (`endsStale`).  `read_spec` says exactly what every read returns when
`m_cur` lags by some number of nodes, and `readAll_iff` follows a list of
reads.
-/

namespace XzmjxRpc
namespace ByteArray

open Blocks

variable {α : Type u}

/-! ## one read -/

/-- A read of `n` cells at position `q` that ends on a node border without
moving `m_cur` over it. -/
def endsStale (base q n : Nat) : Prop := 0 < n ∧ n < base ∧ (q + n) % base = 0

instance (base q n : Nat) : Decidable (endsStale base q n) :=
  inferInstanceAs (Decidable (_ ∧ _ ∧ _))

/-- How many nodes `m_cur` falls back by a read of `n` cells at `q`. -/
def staleStep (base q n : Nat) : Nat := if endsStale base q n then 1 else 0

/-- Only the offset in the node matters for staleness. -/
theorem endsStale_iff {base q n : Nat} (hbase : 0 < base) :
    endsStale base q n ↔ 0 < n ∧ q % base ≠ 0 ∧ q % base + n = base := by
  have hdm := Nat.div_add_mod q base
  have hmod := Nat.mod_lt q hbase
  unfold endsStale
  rw [← hdm, Nat.add_assoc, Nat.mul_add_mod, Nat.mul_add_mod, Nat.mod_mod]
  generalize q % base = o at *
  constructor
  · rintro ⟨h0, h1, h2⟩
    obtain ⟨c, hc⟩ := Nat.dvd_of_mod_eq_zero h2
    have hc1 : c = 1 := by
      rcases c with _ | _ | c
      · omega
      · rfl
      · exfalso
        rw [Nat.mul_add, Nat.mul_add] at hc
        omega
    subst hc1
    omega
  · rintro ⟨h0, h1, h2⟩
    exact ⟨h0, by omega, by rw [h2, Nat.mod_self]⟩

theorem staleStep_mod {base : Nat} (hbase : 0 < base) (q n : Nat) :
    staleStep base (q % base) n = staleStep base q n := by
  simp only [staleStep, endsStale_iff hbase, Nat.mod_mod]

/-- A read that falls back has passed a border. -/
theorem staleStep_le {base : Nat} (hbase : 0 < base) (q n : Nat) :
    staleStep base q n ≤ (q % base + n) / base := by
  rw [staleStep]
  split
  · next hs =>
      obtain ⟨-, -, he⟩ := (endsStale_iff hbase).mp hs
      rw [he, Nat.div_self hbase]
  · exact Nat.zero_le _

/-- How far a read of `n` cells at offset `npos` of a node moves `m_cur`. -/
def advance (base npos n : Nat) : Nat := (npos + n) / base - staleStep base npos n

theorem readNodes_succ (npos : Nat) (node : List α) (rest : List (List α)) {n : Nat} (hn : 0 < n) :
    readNodes npos (node :: rest) n =
      if n ≤ node.length - npos then
        .ok ((node.drop npos).take n, if node.length = n then 1 else 0)
      else
        match readNodes 0 rest (n - (node.length - npos)) with
        | .ok (out, k) => .ok (node.drop npos ++ out, k + 1)
        | .error e => .error e := by
  cases n with
  | zero => omega
  | succ n => rfl

/-- Inside one node, `m_cur->size == size` against the true end test. -/
theorem advance_of_le {base npos n : Nat} (hn : npos < base) (h : npos + n ≤ base) :
    advance base npos n = if base = n then 1 else 0 := by
  have hbase : 0 < base := by omega
  rw [advance, add_div_of_le hbase h, staleStep]
  simp only [endsStale_iff hbase, Nat.mod_eq_of_lt hn]
  split <;> split <;> split <;> omega

/-- Past the first node the offset is 0 and no staleness has happened yet. -/
theorem advance_of_lt {base npos n : Nat} (hn : npos < base) (h : base < npos + n) :
    advance base 0 (n - (base - npos)) + 1 = advance base npos n := by
  have hbase : 0 < base := by omega
  have h0 : staleStep base 0 (n - (base - npos)) = 0 := by
    rw [staleStep, if_neg]
    rw [endsStale_iff hbase, Nat.zero_mod]
    omega
  have h1 : staleStep base npos n = 0 := by
    rw [staleStep, if_neg]
    rw [endsStale_iff hbase, Nat.mod_eq_of_lt hn]
    omega
  rw [advance, advance, h0, h1, Nat.sub_zero, Nat.sub_zero,
    sub_div_succ hbase (by omega) (by omega)]

/-- The read loop returns the cells at offset `npos` of the flattened chain. -/
theorem readNodes_spec {base npos n : Nat} {chain : List (List α)} (hu : Uniform base chain)
    (hn : npos < base) (hfit : npos + n ≤ base * chain.length) :
    readNodes npos chain n = .ok ((chain.flatten.drop npos).take n, advance base npos n) := by
  rcases Nat.eq_zero_or_pos n with rfl | hn0
  · have h0 : advance base npos 0 = 0 := by
      rw [advance, Nat.add_zero, Nat.div_eq_of_lt hn, Nat.zero_sub]
    rw [h0, List.take_zero]
    cases chain <;> rfl
  induction chain generalizing npos n with
  | nil =>
      simp only [List.length_nil] at hfit
      omega
  | cons node rest ih =>
      obtain ⟨hnode, hrest⟩ := uniform_cons.mp hu
      have hlen : (node.drop npos).length = base - npos := by rw [List.length_drop, hnode]
      rw [readNodes_succ _ _ _ hn0, hnode, List.flatten_cons,
        List.drop_append_of_le_length (by omega)]
      by_cases hc : n ≤ base - npos
      · rw [if_pos hc, advance_of_le hn (by omega),
          List.take_append_of_le_length (by omega)]
      · rw [List.length_cons, Nat.mul_succ] at hfit
        have hall : (node.drop npos).take n = node.drop npos :=
          List.take_of_length_le (by omega)
        rw [if_neg hc, ih hrest (by omega) (by omega) (by omega), List.drop_zero,
          ← advance_of_lt (n := n) hn (by omega), List.take_append, hlen, hall]

/-- A buffer whose `m_cur` lags `lag` nodes behind its position. -/
structure Lagging (b : ByteArray α) (lag : Nat) : Prop where
  base_pos : 0 < b.baseSize
  uniform : Uniform b.baseSize b.nodes
  capacity_eq : b.capacity = b.baseSize * b.nodes.length
  position_le : b.position ≤ b.size
  size_le : b.size ≤ b.capacity
  lag_le : lag ≤ b.position / b.baseSize
  cur_eq : b.cur = b.nodeAt (b.position / b.baseSize - lag)

theorem WF.lagging {b : ByteArray α} (h : b.WF) : b.Lagging 0 :=
  ⟨h.base_pos, h.uniform, h.capacity_eq, h.position_le, h.size_le, Nat.zero_le _, h.cur_eq⟩

/-- Where `m_cur` is, as a position. -/
theorem Lagging.sub_mul {b : ByteArray α} {lag : Nat} (h : b.Lagging lag) :
    b.position - lag * b.baseSize =
      b.baseSize * (b.position / b.baseSize - lag) + b.position % b.baseSize := by
  have hdm := Nat.div_add_mod b.position b.baseSize
  have hmul := Nat.mul_le_mul_left b.baseSize h.lag_le
  rw [Nat.mul_sub, Nat.mul_comm lag]
  omega

/-- `m_cur` is null only at the end of the chain, without lag. -/
theorem Lagging.cur_none_iff {b : ByteArray α} {lag : Nat} (h : b.Lagging lag) :
    b.cur = none ↔ lag = 0 ∧ b.position = b.capacity := by
  have hle := h.position_le.trans h.size_le
  have hlag := h.lag_le
  have hq : b.position / b.baseSize ≤ b.nodes.length := by
    rw [h.capacity_eq] at hle
    exact Nat.div_le_of_le_mul hle
  rw [h.cur_eq, nodeAt, ite_eq_right_iff]
  constructor
  · intro hnone
    have hge : b.nodes.length ≤ b.position / b.baseSize - lag := by
      by_contra hc
      exact absurd (hnone (by omega)) (by simp)
    have hle : b.nodes.length ≤ b.position / b.baseSize := by omega
    have hmul := (Nat.le_div_iff_mul_le h.base_pos).mp hle
    rw [Nat.mul_comm, ← h.capacity_eq] at hmul
    omega
  · rintro ⟨rfl, hp⟩ hlt
    rw [hp, h.capacity_eq, Nat.mul_div_cancel_left _ h.base_pos] at hlt
    omega

/-- The `n` cells found `lag` nodes before position `q`: what a read at `q`
returns when `m_cur` lags by `lag`. -/
def behind (base : Nat) (cells : List α) (lag q n : Nat) : List α :=
  (cells.drop (q - lag * base)).take n

/-- **One read**, exactly: it fails on a null `m_cur`, and otherwise returns
the cells `lag` nodes back and may fall back one node more. -/
theorem read_spec {b : ByteArray α} {lag n : Nat} (h : b.Lagging lag)
    (hn : b.position + n ≤ b.size) (hcur : n = 0 → lag = 0 → b.position < b.capacity) :
    ∃ b', b.read n = .ok (behind b.baseSize b.cells lag b.position n, b') ∧
      b'.Lagging (lag + staleStep b.baseSize b.position n) ∧
      b'.position = b.position + n ∧ b'.baseSize = b.baseSize ∧ b'.size = b.size ∧
      b'.capacity = b.capacity ∧ b'.nodes = b.nodes := by
  have hsize := h.size_le
  have hlag := h.lag_le
  have hsome : b.cur ≠ none := by
    intro hnone
    obtain ⟨h0, hp⟩ := h.cur_none_iff.mp hnone
    rcases Nat.eq_zero_or_pos n with hz | hz
    · have := hcur hz h0
      omega
    · omega
  have hlt : b.position / b.baseSize - lag < b.nodes.length := by
    by_contra hc
    exact hsome (by rw [h.cur_eq, nodeAt_of_le (by omega)])
  have hmod := Nat.mod_lt b.position h.base_pos
  have hdm := Nat.div_add_mod b.position b.baseSize
  have hback := h.sub_mul
  have hfit : b.position % b.baseSize + n ≤
      b.baseSize * (b.nodes.drop (b.position / b.baseSize - lag)).length := by
    rw [List.length_drop, Nat.mul_sub, ← h.capacity_eq, Nat.mul_sub]
    have := Nat.mul_le_mul_left b.baseSize hlag
    omega
  have hquot := add_div_eq h.base_pos b.position n
  have hstep := staleStep_le h.base_pos b.position n
  have hadv : b.position / b.baseSize - lag + advance b.baseSize (b.position % b.baseSize) n =
      (b.position + n) / b.baseSize - (lag + staleStep b.baseSize b.position n) := by
    rw [advance, staleStep_mod h.base_pos, hquot]
    omega
  have hread : b.getReadSize = b.size - b.position := sizeSub_of_le h.position_le
  refine ⟨{ b with
      position := b.position + n
      cur := b.nodeAt (b.position / b.baseSize - lag +
        advance b.baseSize (b.position % b.baseSize) n) }, ?_, ?_, rfl, rfl, rfl, rfl, rfl⟩
  · rw [read, if_neg (by omega), h.cur_eq, nodeAt_of_lt hlt]
    simp only [readNodes_spec (h.uniform.drop _) hmod hfit]
    rw [behind, hback, ← List.drop_drop, cells, drop_flatten h.uniform]
  · refine ⟨h.base_pos, h.uniform, h.capacity_eq, hn, hsize, ?_, ?_⟩
    · simp only [hquot]
      omega
    · simp only [nodeAt, hadv]

/-- Without lag, an empty read at the end of the chain fails. -/
theorem read_null {b : ByteArray α} (h : b.Lagging 0) (hp : b.position = b.capacity) :
    b.read 0 = .error .nullNode := by
  rw [read, if_neg (by omega), h.cur_none_iff.mpr ⟨rfl, hp⟩]

/-! ## a list of reads -/

/-- The condition under which reads of `ns` cells, from position `q` on with
`m_cur` `lag` nodes behind, are right: no empty read at the very end, and
wherever earlier reads left `m_cur` behind, the cells that many nodes back
happen to be the ones asked for. -/
def ReadsClean (base capacity : Nat) (cells : List α) : (q lag : Nat) → List Nat → Prop
  | _, _, [] => True
  | q, lag, n :: ns =>
      (n = 0 → lag = 0 → q < capacity) ∧
      behind base cells lag q n = behind base cells 0 q n ∧
      ReadsClean base capacity cells (q + n) (lag + staleStep base q n) ns

theorem length_behind {base : Nat} {cells : List α} {lag q n : Nat} (h : q + n ≤ cells.length) :
    (behind base cells lag q n).length = n := by
  rw [behind, List.length_take, List.length_drop]
  omega

theorem behind_add (base : Nat) (cells : List α) (q m n : Nat) :
    behind base cells 0 q (m + n) = behind base cells 0 q m ++ behind base cells 0 (q + m) n := by
  simp only [behind, Nat.zero_mul, Nat.sub_zero]
  rw [List.take_add, List.drop_drop]

/-- **Many reads**, exactly: together they return the cells from the position
on if and only if every one of them is clean. -/
theorem readAll_iff {b : ByteArray α} {lag : Nat} {ns : List Nat} (h : b.Lagging lag)
    (hfit : b.position + ns.sum ≤ b.size) :
    (∃ outs b', b.readAll ns = .ok (outs, b') ∧
      outs.flatten = behind b.baseSize b.cells 0 b.position ns.sum ∧
      b'.position = b.position + ns.sum) ↔
    ReadsClean b.baseSize b.capacity b.cells b.position lag ns := by
  induction ns generalizing b lag with
  | nil => simp [readAll, ReadsClean, behind]
  | cons n ns ih =>
      rw [List.sum_cons] at hfit
      have hcells : b.cells.length = b.capacity := by
        rw [cells, length_flatten h.uniform, h.capacity_eq]
      have hsize := h.size_le
      simp only [ReadsClean, readAll, List.sum_cons]
      by_cases hcur : n = 0 → lag = 0 → b.position < b.capacity
      · obtain ⟨c, hread, hlag, hpos, hbase, hcsize, hcap, hnodes⟩ :=
          read_spec h (n := n) (by omega) hcur
        have hcc : c.cells = b.cells := by rw [cells, cells, hnodes]
        have ih' := ih hlag (by omega)
        rw [hpos, hbase, hcap, hcc] at ih'
        have hlen (lag : Nat) : (behind b.baseSize b.cells lag b.position n).length = n :=
          length_behind (by omega)
        rw [hread, behind_add]
        constructor
        · rintro ⟨outs, b', hrun, hflat, hp⟩
          cases hall : c.readAll ns with
          | error e => simp only [hall] at hrun; contradiction
          | ok r =>
              obtain ⟨outs', b''⟩ := r
              simp only [hall, Except.ok.injEq, Prod.mk.injEq] at hrun
              obtain ⟨rfl, rfl⟩ := hrun
              rw [List.flatten_cons] at hflat
              obtain ⟨hfst, hsnd⟩ := List.append_inj hflat (by rw [hlen, hlen])
              exact ⟨hcur, hfst, ih'.mp ⟨outs', b'', hall, hsnd, by omega⟩⟩
        · rintro ⟨-, hsame, hrest⟩
          obtain ⟨outs', b'', hall, hflat, hp⟩ := ih'.mpr hrest
          refine ⟨behind b.baseSize b.cells lag b.position n :: outs', b'', by simp only [hall],
            ?_, by omega⟩
          rw [List.flatten_cons, hflat, hsame]
      · -- an empty read while `m_cur` is null
        obtain ⟨rfl, rfl, hnot⟩ : n = 0 ∧ lag = 0 ∧ ¬ b.position < b.capacity := by
          simpa using hcur
        have hle := h.position_le
        rw [read_null h (by omega)]
        constructor
        · rintro ⟨_, _, hrun, -⟩
          contradiction
        · rintro ⟨hc, -⟩
          exact absurd (hc rfl rfl) hnot

/-- Reading `ns` one after the other from position `p` returns the content
from `p` on, as one read of their sum does, and ends where it ends. -/
def SplitInvisible (b : ByteArray α) (p : Nat) (ns : List Nat) : Prop :=
  ∃ b₀ outs b₁ out b₂, b.setPosition p = .ok b₀ ∧
    b₀.readAll ns = .ok (outs, b₁) ∧ b₀.read ns.sum = .ok (out, b₂) ∧
    outs.flatten = (b.content.drop p).take ns.sum ∧ out = outs.flatten ∧
    b₁.position = p + ns.sum ∧ b₂.position = b₁.position

theorem take_drop_content {b : ByteArray α} {p n : Nat} (h : p + n ≤ b.size) :
    (b.content.drop p).take n = (b.cells.drop p).take n := by
  rw [content, List.drop_take, List.take_take]
  congr 1
  omega

/-- **Split reads**: how a reader splits its reads is invisible exactly when
every read is clean and the whole is not an empty read at the very end. -/
theorem splitInvisible_iff [Inhabited α] {base : Nat} (hbase : 0 < base) {b : ByteArray α}
    (h : Reachable base b) {p : Nat} {ns : List Nat} (hfit : p + ns.sum ≤ b.size) :
    SplitInvisible b p ns ↔
      (ns.sum = 0 → p < b.capacity) ∧ ReadsClean base b.capacity b.cells p 0 ns := by
  obtain ⟨hw, rfl⟩ := h.wf hbase
  have hsize := hw.size_le
  have hset := setPosition_spec hw (show p ≤ b.capacity by omega)
  have hlag : Lagging _ 0 := (setPosition_wf hw hset).lagging
  generalize hb₀ : { b with position := p, size := max b.size p,
                            cur := b.nodeAt (p / b.baseSize) } = b₀ at hset hlag
  have hmax : max b.size p = b.size := by omega
  obtain ⟨hpos, hs, hbs, hcap, hcells⟩ : b₀.position = p ∧ b₀.size = b.size ∧
      b₀.baseSize = b.baseSize ∧ b₀.capacity = b.capacity ∧ b₀.cells = b.cells := by
    subst hb₀
    exact ⟨rfl, hmax, rfl, rfl, rfl⟩
  have hfit₀ : b₀.position + ns.sum ≤ b₀.size := by omega
  have hiff := readAll_iff hlag hfit₀
  rw [hpos, hbs, hcap, hcells] at hiff
  have hone (n : Nat) (q : Nat) : behind b.baseSize b.cells 0 q n = (b.cells.drop q).take n := by
    rw [behind, Nat.zero_mul, Nat.sub_zero]
  unfold SplitInvisible
  rw [take_drop_content hfit, ← hiff]
  constructor
  · rintro ⟨c, outs, b₁, out, b₂, hc, hall, hread, hflat, -, hp₁, -⟩
    rw [hset, Except.ok.injEq] at hc
    subst hc
    refine ⟨fun hsum => ?_, outs, b₁, hall, by rw [hflat, hone], hp₁⟩
    by_contra hend
    rw [hsum, read_null hlag (by omega)] at hread
    contradiction
  · rintro ⟨hend, outs, b₁, hall, hflat, hp₁⟩
    obtain ⟨b₂, hread, -, hp₂, -⟩ := read_spec hlag (n := ns.sum) (by omega)
      (fun h0 _ => by have := hend h0; omega)
    rw [hpos, hbs, hcells] at hread
    refine ⟨b₀, outs, b₁, _, b₂, hset, hall, hread, by rw [hflat, hone], hflat.symm, hp₁, ?_⟩
    rw [hp₂, hp₁, hpos]

/-- Reading eight bytes of two four-byte nodes two by two returns the first
node's bytes again. -/
theorem readAll_two_by_two : ∃ b : ByteArray UInt8, Reachable 4 b ∧
    b.content = [1, 2, 3, 4, 5, 6, 7, 8] ∧ ¬ SplitInvisible b 0 [2, 2, 2, 2] := by
  have hrun : Lts.Run Step (new 4 : ByteArray UInt8) [.write [1, 2, 3, 4, 5, 6, 7, 8]]
      ⟨8, 4, 8, 8, [[1, 2, 3, 4], [5, 6, 7, 8]], none⟩ := .single rfl
  refine ⟨_, ⟨_, hrun⟩, by decide, ?_⟩
  rintro ⟨b₀, outs, b₁, out, b₂, hset, hall, -, hflat, -⟩
  cases hset
  cases hall
  revert hflat
  decide

/-- The same buffer read as a whole node and a part of the next. -/
theorem splitInvisible_whole_node : ∃ b : ByteArray UInt8,
    b.content = [1, 2, 3, 4, 5, 6, 7, 8] ∧ SplitInvisible b 0 [4, 3] := by
  have hrun : Lts.Run Step (new 4 : ByteArray UInt8) [.write [1, 2, 3, 4, 5, 6, 7, 8]]
      ⟨8, 4, 8, 8, [[1, 2, 3, 4], [5, 6, 7, 8]], none⟩ := .single rfl
  refine ⟨_, by decide, (splitInvisible_iff (by decide) ⟨_, hrun⟩ (by decide)).mpr ?_⟩
  exact ⟨by decide, by decide, by decide, by decide, by decide, trivial⟩

end ByteArray
end XzmjxRpc
