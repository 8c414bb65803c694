import XzmjxRpc.Net.Stream
import XzmjxRpc.Utils.ByteArray.Iovec

/-!
# XzmjxRpc.Net.SocketRead

The receiving side of a connection on the chunked buffer: `SocketStream::read`
(`net/socketstream.cpp`) fills the segments of `getWriteBuffers`, and
`Stream::readFixedSize` calls it until it has what it needs.

The segments are one stretch of cells from the position on (`fill_gather`),
but when the node of the position is too small for the `length` bytes asked
for they are longer than these.  So the loop is that of `XzmjxRpc.Net.Stream`
for up to half a node, and for less than a node as long as no receive returns
more than is still needed (`readFixedSizeOn_eq`).  For more than a node the
first receive runs off the chain (`readFixedSizeOn_null`).
-/

namespace XzmjxRpc

open Blocks

namespace ByteArray

variable {α : Type u}

/-! ## the segments of a walk -/

/-- One segment inside its node. -/
theorem fill_singleton {b : ByteArray α} {i npos len : Nat} {d : List α} (hd : d.length ≤ len) :
    b.fill [⟨i, npos, len⟩] d = { b with nodes := b.nodes.modify i (splice npos d) } := by
  rw [fill, fill, List.take_of_length_le hd]

theorem position_fill (b : ByteArray α) (segs : List Iovec) (d : List α) :
    (b.fill segs d).position = b.position := by
  induction segs generalizing b d with
  | nil => rfl
  | cons v vs ih => exact ih _ _

/-- Nothing came in. -/
theorem fill_nil (b : ByteArray α) (segs : List Iovec) : b.fill segs [] = b := by
  induction segs with
  | nil => rfl
  | cons v vs ih =>
      have hid : splice v.off ([] : List α) = id := funext (splice_nil v.off)
      rw [fill, List.take_nil, List.drop_nil, hid, List.modify_id]
      exact ih

/-- **The segments of a walk** are one stretch of cells: whatever is filled
into them, even beyond what was asked for, lies in a row. -/
theorem fill_gather {base len npos i : Nat} {chain : List (List α)} {segs : List Iovec}
    {b : ByteArray α} {d : List α} (hu : Uniform base b.nodes) (hchain : b.nodes.drop i = chain)
    (hn : npos ≤ base) (h : gather len npos i chain = .ok segs)
    (hd : d.length ≤ (segs.map Iovec.len).sum) :
    ∃ nodes, b.fill segs d = { b with nodes := nodes } ∧ Uniform base nodes ∧
      nodes.length = b.nodes.length ∧
        nodes.flatten = splice (base * i + npos) d b.nodes.flatten := by
  induction chain generalizing npos i segs b d with
  | nil =>
      rw [gather] at h
      cases h
  | cons node rest ih =>
      have hi : i < b.nodes.length := by
        by_contra hi
        rw [List.drop_eq_nil_of_le (by omega)] at hchain
        cases hchain
      have hnode : node.length = base :=
        hu _ (List.mem_of_mem_drop (hchain ▸ List.mem_cons_self))
      rw [gather] at h
      by_cases hc : len ≤ node.length - npos
      · simp only [if_pos hc] at h
        cases h
        simp only [List.map_singleton, List.sum_singleton] at hd
        refine ⟨_, fill_singleton hd, hu.modify_splice (by omega), List.length_modify .., ?_⟩
        exact flatten_modify_splice hu hi (by omega)
      · simp only [if_neg hc] at h
        cases hr : gather len 0 (i + 1) rest with
        | error e => simp only [hr] at h; contradiction
        | ok segs' =>
            simp only [hr] at h
            cases h
            simp only [List.map_cons, List.sum_cons] at hd
            have htake : (d.take (node.length - npos)).length ≤ node.length - npos :=
              List.length_take_le _ _
            -- the first node to its end, then the others from their start
            have hdrop :
                (b.nodes.modify i (splice npos (d.take (node.length - npos)))).drop (i + 1) =
                rest := by
              rw [List.drop_modify_of_lt _ _ _ _ (Nat.lt_add_one i), ← List.drop_drop, hchain]
              rfl
            obtain ⟨nodes, hfill, hu', hlen, hflat⟩ :=
              @ih 0 (i + 1) segs' { b with
                  nodes := b.nodes.modify i (splice npos (d.take (node.length - npos))) }
                (d.drop (node.length - npos)) (hu.modify_splice (by omega)) hdrop (Nat.zero_le _) hr
                (by rw [List.length_drop]; omega)
            refine ⟨nodes, hfill, hu', by rw [hlen, List.length_modify], ?_⟩
            rw [hflat, flatten_modify_splice hu hi (by omega)]
            have hend : base * (i + 1) + 0 = base * i + npos + (node.length - npos) := by
              rw [Nat.mul_succ]
              omega
            have hle : base * i + npos ≤ b.nodes.flatten.length := by
              have hmul := Nat.mul_le_mul_left base (Nat.succ_le_of_lt hi)
              rw [Nat.mul_succ] at hmul
              rw [length_flatten hu]
              omega
            rw [hend, splice_take_drop hle]

/-- Inside one node there is one segment. -/
theorem sum_gather_of_le {len npos i : Nat} {node : List α} {rest : List (List α)}
    {segs : List Iovec} (hc : npos + len ≤ node.length)
    (h : gather len npos i (node :: rest) = .ok segs) : (segs.map Iovec.len).sum = len := by
  rw [gather_of_le hc] at h
  cases h
  exact List.sum_singleton

/-- For up to a node the walk ends in the node of the position or the next one. -/
theorem gather_of_le_base {base len npos i : Nat} {chain : List (List α)} (hu : Uniform base chain)
    (hlen : len ≤ base) (hroom : npos + len ≤ base * chain.length) (hne : chain ≠ []) :
    ∃ segs, gather len npos i chain = .ok segs ∧
      (segs.map Iovec.len).sum ≤ base - npos + len := by
  cases chain with
  | nil => exact absurd rfl hne
  | cons node rest =>
      obtain ⟨hnode, hrest⟩ := uniform_cons.mp hu
      by_cases hc : len ≤ node.length - npos
      · refine ⟨[⟨i, npos, len⟩], by rw [gather, if_pos hc], ?_⟩
        rw [List.map_singleton, List.sum_singleton]
        exact Nat.le_add_left len _
      · cases rest with
        | nil =>
            rw [List.length_singleton] at hroom
            omega
        | cons next rest =>
            have hnext := (uniform_cons.mp hrest).1
            refine ⟨[⟨i, npos, node.length - npos⟩, ⟨i + 1, 0, len⟩], ?_, ?_⟩
            · rw [gather, if_neg hc, gather_of_le (by omega)]
            · simp only [List.map_cons, List.map_nil, List.sum_cons, List.sum_nil]
              omega

section
variable [Inhabited α] {b : ByteArray α} {f : FlatBuffer α}

/-- Growing changes nothing of the content. -/
theorem addCapacity_refines (h : b.Refines f) (n : Nat) : (b.addCapacity n).Refines f := by
  obtain ⟨hw, hpos, -, hsize, -, -, hcells, -⟩ := addCapacity_spec h.wf n
  refine ⟨hw, ?_, hpos.trans h.position⟩
  rw [← h.content, content, content, hsize, hcells,
    List.take_append_of_le_length (by rw [h.wf.length_cells]; exact h.wf.size_le)]

omit [Inhabited α] in
/-- Cells stored in a row at the position, and the position moved behind them. -/
theorem setPosition_write_refines (h : b.Refines f) {nodes : List (List α)} {d : List α}
    (hu : Uniform b.baseSize nodes) (hlen : nodes.length = b.nodes.length)
    (hflat : nodes.flatten = splice b.position d b.nodes.flatten) :
    ∃ b', ({ b with nodes := nodes } : ByteArray α).setPosition (b.position + d.length) = .ok b' ∧
      b'.Refines (f.write d) ∧ b'.baseSize = b.baseSize := by
  have hle := h.wf.position_le
  have hsize := h.wf.size_le
  have hcells := h.wf.length_cells
  have hstored : ({ b with nodes := nodes } : ByteArray α).WF := by
    refine ⟨h.wf.base_pos, hu, hlen ▸ h.wf.nodes_pos, ?_, hle, hsize, ?_⟩
    · exact h.wf.capacity_eq.trans (congrArg (b.baseSize * ·) hlen.symm)
    · rw [nodeAt, hlen]
      exact h.wf.cur_eq
  have hfit : b.position + d.length ≤ b.capacity := by
    have hmax : (splice b.position d b.cells).length = max b.cells.length (b.position + d.length) :=
      length_splice (by omega)
    have hnodes : nodes.flatten.length = b.capacity := by
      rw [length_flatten hu, hlen, h.wf.capacity_eq]
    rw [cells, ← hflat, hnodes] at hmax
    omega
  have hset := setPosition_spec hstored hfit
  refine ⟨_, hset, ⟨setPosition_wf hstored hset, ?_, ?_⟩, rfl⟩
  · show nodes.flatten.take (max b.size (b.position + d.length)) = splice f.position d f.data
    rw [hflat, take_splice hle (by rw [← cells]; omega), ← h.content, ← h.position]
    rfl
  · show b.position + d.length = f.position + d.length
    rw [h.position]

/-- **getWriteBuffers** for up to a node: room for what was asked and perhaps
more, and what is filled into it is written at the position. -/
theorem getWriteBuffers_refines (h : b.Refines f) {n : Nat} (hn : 0 < n) (hle : n ≤ b.baseSize) :
    ∃ iov, b.getWriteBuffers [] n = .ok (n, iov, b.addCapacity n) ∧
      n ≤ (iov.map Iovec.len).sum ∧
      (iov.map Iovec.len).sum ≤ 2 * b.baseSize ∧
      (b.position % b.baseSize + n ≤ b.baseSize → (iov.map Iovec.len).sum = n) ∧
      ∀ d : List α, d.length ≤ (iov.map Iovec.len).sum →
        ∃ b', ((b.addCapacity n).fill iov d).setPosition (b.position + d.length) = .ok b' ∧
          b'.Refines (f.write d) ∧ b'.baseSize = b.baseSize := by
  obtain ⟨hw, hpos, hbase, hsize, -, hfit, -⟩ := addCapacity_spec h.wf n
  have hfit := hfit hn
  have href := addCapacity_refines h n
  have heq := getWriteBuffers_eq h.wf [] hn
  generalize b.addCapacity n = c at *
  have hmod := Nat.mod_lt b.position h.wf.base_pos
  have hlt : b.position / b.baseSize < c.nodes.length := by
    rw [← hbase]
    exact hw.div_lt (by omega)
  have hu : Uniform b.baseSize c.nodes := hbase ▸ hw.uniform
  have hdiv := Nat.div_add_mod b.position b.baseSize
  have hcap : c.capacity = b.baseSize * c.nodes.length := hbase ▸ hw.capacity_eq
  have hroom : b.position % b.baseSize + n ≤
      b.baseSize * (c.nodes.drop (b.position / b.baseSize)).length := by
    rw [List.length_drop, Nat.mul_sub]
    omega
  have hne : c.nodes.drop (b.position / b.baseSize) ≠ [] :=
    List.ne_nil_of_length_pos (by rw [List.length_drop]; omega)
  obtain ⟨iov, hgather, hsum⟩ := @gather_of_le_base _ _ _ _ (b.position / b.baseSize) _
    (hu.drop _) hle hroom hne
  rw [hgather] at heq
  refine ⟨iov, heq, le_sum_gather hgather, by omega, fun hone => ?_, fun d hd => ?_⟩
  · rw [List.drop_eq_getElem_cons hlt] at hgather
    exact sum_gather_of_le (by rw [hu _ (List.getElem_mem hlt)]; exact hone) hgather
  · obtain ⟨nodes, hfill, hun, hlen, hflat⟩ := fill_gather hu rfl hmod.le hgather hd
    rw [hdiv] at hflat
    obtain ⟨b', hset, href', hb'⟩ := setPosition_write_refines href (hbase ▸ hun) hlen
      (by rw [hpos]; exact hflat)
    rw [hfill, ← hpos]
    exact ⟨b', hset, href', hb'.trans hbase⟩

end

end ByteArray

/-! ## one receive -/

/-- What the transport does with a receive. -/
inductive Arrival where
  /-- `isConnected()` is false. -/
  | notConnected
  /-- `recvmsg` would like to return `rt`: a failure, or a number of bytes,
  which is cut down to what the segments hold and what there is. -/
  | recvmsg (rt : Int)
  deriving DecidableEq, Repr

/-- What the receive returns before it is cut down. -/
def Arrival.result : Arrival → Int
  | .notConnected => -1
  | .recvmsg rt => rt

/-- How many bytes come in, with room for `room`. -/
def Arrival.got (a : Arrival) (room : Nat) (stream : Bytes) : Nat :=
  min a.result.toNat (min room stream.length)

/-- The connection after a receive of `got` bytes. -/
def Conn.received (c : Conn) (left : Int) (got : Nat) : Conn :=
  ⟨c.stream.drop got, ⟨left, got⟩ :: c.rounds⟩

/-- `SocketStream::read(ba, length)`, with `left` bytes missing in the loop of
`readFixedSize`. -/
def socketReadOn (arrive : Nat → Arrival) (left : Int) (length : Nat) (ba : ByteArray Byte)
    (c : Conn) : Except Fault (Int × ByteArray Byte) × Conn :=
  match arrive c.rounds.length with
  | .notConnected => (.ok (-1, ba), c.received left 0)
  | .recvmsg rt =>
      match ba.getWriteBuffers [] length with
      | .error e => (.error e, c)
      | .ok (_, iov, ba) =>
          if rt ≤ 0 then (.ok (rt, ba), c.received left 0)
          else
            let got := (Arrival.recvmsg rt).got (iov.map Iovec.len).sum c.stream
            let rt := toInt got
            let ba := ba.fill iov (c.stream.take got)
            if rt ≤ 0 then (.ok (rt, ba), c.received left got)
            else ((ba.setPosition (ba.position + rt.toNat)).map (rt, ·), c.received left got)

/-- The `while (left > 0)` loop of `readFixedSize`, as in `readLoop`. -/
def readLoopOn (arrive : Nat → Arrival) (length : Nat) :
    (rounds : Nat) → (left : Int) → ByteArray Byte → Conn →
      Except Fault (Int × ByteArray Byte) × Conn
  | 0, _, ba, c => (.ok (toInt length, ba), c)
  | rounds + 1, left, ba, c =>
      if 0 < left then
        match socketReadOn arrive left length ba c with
        | (.error e, c) => (.error e, c)
        | (.ok (rt, ba), c) =>
            if rt ≤ 0 then (.ok (rt, ba), c) else readLoopOn arrive length rounds (left - rt) ba c
      else (.ok (toInt length, ba), c)

/-- `readFixedSize(ba, length)`. -/
def readFixedSizeOn (arrive : Nat → Arrival) (ba : ByteArray Byte) (length : Nat) (c : Conn) :
    Except Fault (Int × ByteArray Byte) × Conn :=
  readLoopOn arrive length (toInt length).toNat (toInt length) ba c

/-- The same transport for a flat buffer. -/
def flatCut (arrive : Nat → Arrival) (i : Nat) : Int := (arrive i).result

/-- A receive with room for `room` bytes, into a flat buffer. -/
def flatRead (arrive : Nat → Arrival) (left : Int) (room : Nat) (f : FlatBuffer Byte) (c : Conn) :
    Int × FlatBuffer Byte × Conn :=
  let a := arrive c.rounds.length
  let got := a.got room c.stream
  (if a.result ≤ 0 then a.result else got, f.write (c.stream.take got), c.received left got)

section
variable {arrive : Nat → Arrival} {left : Int} {length : Nat} {ba : ByteArray Byte}
  {f : FlatBuffer Byte} {c : Conn}

theorem Arrival.got_le (a : Arrival) (room : Nat) (stream : Bytes) : a.got room stream ≤ room := by
  unfold Arrival.got
  omega

/-- A receive that fails brings nothing. -/
theorem Arrival.got_of_le {a : Arrival} (ha : a.result ≤ 0) (room : Nat) (stream : Bytes) :
    a.got room stream = 0 := by
  unfold Arrival.got
  omega

theorem flatRead_of_le (ha : (arrive c.rounds.length).result ≤ 0) (room : Nat) :
    flatRead arrive left room f c = ((arrive c.rounds.length).result, f, c.received left 0) := by
  simp only [flatRead, if_pos ha, Arrival.got_of_le ha, List.take_zero, write_nil]

/-- On a flat buffer there is room for the bytes asked for. -/
theorem socketRead_eq (h31 : length < 2 ^ 31) :
    socketRead (flatCut arrive) left length f c = flatRead arrive left length f c := by
  have hgot : c.got (flatCut arrive) length = (arrive c.rounds.length).got length c.stream := rfl
  have hcut : flatCut arrive c.rounds.length = (arrive c.rounds.length).result := rfl
  rw [socketRead, hgot, hcut]
  by_cases ha : (arrive c.rounds.length).result ≤ 0
  · rw [if_pos ha, flatRead_of_le ha]
    rfl
  · have hle := (arrive c.rounds.length).got_le length c.stream
    rw [if_neg ha, flatRead, if_neg ha]
    generalize (arrive c.rounds.length).got length c.stream = got at hle ⊢
    have hint : toInt got = got := toInt_of_lt (by omega) (by omega)
    dsimp only
    rw [hint, Int.toNat_natCast, List.take_take, Nat.min_self]
    rfl

/-- **A receive** for up to a node never fails: the bytes that come in are
written at the position, as many as the segments have room for. -/
theorem socketReadOn_spec (h : ba.Refines f) (h0 : 0 < length) (hle : length ≤ ba.baseSize)
    (hbase : ba.baseSize < 2 ^ 30) :
    ∃ (room : Nat) (ba' : ByteArray Byte), length ≤ room ∧
      (f.position % ba.baseSize + length ≤ ba.baseSize → room = length) ∧
      socketReadOn arrive left length ba c =
        (.ok ((flatRead arrive left room f c).1, ba'), (flatRead arrive left room f c).2.2) ∧
      ba'.Refines (flatRead arrive left room f c).2.1 ∧ ba'.baseSize = ba.baseSize := by
  cases harr : arrive c.rounds.length with
  | notConnected =>
      have ha : (arrive c.rounds.length).result ≤ 0 := by rw [harr]; decide
      refine ⟨length, ba, Nat.le_refl _, fun _ => rfl, ?_⟩
      rw [flatRead_of_le ha, socketReadOn, harr]
      exact ⟨rfl, h, rfl⟩
  | recvmsg rt =>
      obtain ⟨iov, hget, hge, hmax, hone, hfill⟩ := ByteArray.getWriteBuffers_refines h h0 hle
      refine ⟨(iov.map Iovec.len).sum, ?_⟩
      rw [← h.position]
      by_cases hrt : rt ≤ 0
      · have ha : (arrive c.rounds.length).result ≤ 0 := by rw [harr]; exact hrt
        refine ⟨ba.addCapacity length, hge, hone, ?_⟩
        rw [flatRead_of_le ha, socketReadOn, harr]
        simp only [hget, if_pos hrt]
        exact ⟨rfl, ByteArray.addCapacity_refines h length,
          (ByteArray.addCapacity_spec h.wf length).2.2.1⟩
      · have hle := (Arrival.recvmsg rt).got_le (iov.map Iovec.len).sum c.stream
        have hlen :
            (c.stream.take ((Arrival.recvmsg rt).got (iov.map Iovec.len).sum c.stream)).length =
            (Arrival.recvmsg rt).got (iov.map Iovec.len).sum c.stream := by
          rw [List.length_take, Arrival.got]
          omega
        have hpos : (ba.addCapacity length).position = ba.position :=
          (ByteArray.addCapacity_spec h.wf length).2.1
        rw [socketReadOn, flatRead, harr]
        simp only [hget, if_neg hrt, show ¬ (Arrival.recvmsg rt).result ≤ 0 from hrt, if_false]
        generalize (Arrival.recvmsg rt).got (iov.map Iovec.len).sum c.stream = got at hle hlen ⊢
        have hint : toInt got = got := toInt_of_lt (by omega) (by omega)
        rw [hint, ByteArray.position_fill, hpos]
        rcases Nat.eq_zero_or_pos got with rfl | hgot
        · refine ⟨ba.addCapacity length, hge, hone, ?_⟩
          rw [if_pos (by decide), List.take_zero, ByteArray.fill_nil, write_nil]
          exact ⟨rfl, ByteArray.addCapacity_refines h length,
            (ByteArray.addCapacity_spec h.wf length).2.2.1⟩
        · obtain ⟨b', hset, href, hb⟩ := hfill (c.stream.take got) (by omega)
          refine ⟨b', hge, hone, ?_, href, hb⟩
          rw [hlen] at hset
          rw [if_neg (by omega), Int.toNat_natCast, hset]
          rfl

/-! ## the loop -/

/-- Receives are only ever added. -/
theorem rounds_readLoopOn (arrive : Nat → Arrival) (length rounds : Nat) (left : Int)
    (ba : ByteArray Byte) (c : Conn) :
    ∃ rs, (readLoopOn arrive length rounds left ba c).2.rounds = rs ++ c.rounds := by
  induction rounds generalizing left ba c with
  | zero => exact ⟨[], rfl⟩
  | succ n ih =>
      rw [readLoopOn]
      by_cases hleft : 0 < left
      · rw [if_pos hleft]
        have hread : ∃ rs, (socketReadOn arrive left length ba c).2.rounds = rs ++ c.rounds := by
          unfold socketReadOn
          dsimp only
          split
          · exact ⟨[_], rfl⟩
          · split
            · exact ⟨[], rfl⟩
            · split
              · exact ⟨[_], rfl⟩
              · split <;> exact ⟨[_], rfl⟩
        generalize socketReadOn arrive left length ba c = out at hread
        obtain ⟨res, c'⟩ := out
        obtain ⟨rs, hrs⟩ := hread
        cases res with
        | error e => exact ⟨rs, hrs⟩
        | ok p =>
            dsimp only at hrs ⊢
            split
            · exact ⟨rs, hrs⟩
            · obtain ⟨rs', hrs'⟩ := ih (left - p.1) p.2 c'
              exact ⟨rs' ++ rs, by rw [hrs', hrs, List.append_assoc]⟩
      · rw [if_neg hleft]
        exact ⟨[], rfl⟩

theorem fits_of_readLoopOn {rounds : Nat}
    (h : (readLoopOn arrive length rounds left ba c).2.Fits) : c.Fits := by
  obtain ⟨rs, hrs⟩ := rounds_readLoopOn arrive length rounds left ba c
  intro r hr
  exact h r (by rw [hrs]; exact List.mem_append_right _ hr)

/-- At the end of its data the buffer grows by what came in. -/
theorem flatRead_end (hend : f.position = f.data.length) (room : Nat) :
    (flatRead arrive left room f c).2.1.position =
        (flatRead arrive left room f c).2.1.data.length ∧
      (0 < (flatRead arrive left room f c).1 →
        ((flatRead arrive left room f c).2.1.position : Int) =
          f.position + (flatRead arrive left room f c).1) := by
  have hle : (arrive c.rounds.length).got room c.stream ≤ c.stream.length := by
    unfold Arrival.got
    omega
  dsimp only [flatRead]
  rw [FlatBuffer.data_write_of_eq hend, FlatBuffer.position_write, List.length_append,
    List.length_take, Nat.min_eq_left hle]
  refine ⟨by omega, fun hrt => ?_⟩
  split at hrt <;> omega

/-- A round that has room for what was asked for, or that brings no more than is
needed, is that of the flat buffer and ends inside the node. -/
theorem flatRead_calm {base room : Nat} (hend : f.position = f.data.length)
    (hpos : f.position < length) (hleft : (f.position : Int) + left = length)
    (hroom : length ≤ room) (hone : f.position % base + length ≤ base → room = length)
    (hcalm : 2 * length ≤ base ∨
      length < base ∧ ((arrive c.rounds.length).got room c.stream : Int) ≤ left) :
    flatRead arrive left room f c = flatRead arrive left length f c ∧
      (flatRead arrive left length f c).2.1.data.length < base := by
  have hgot : (arrive c.rounds.length).got room c.stream =
      (arrive c.rounds.length).got length c.stream := by
    rcases hcalm with hhalf | ⟨hlt, hfit⟩
    · rw [hone (by rw [Nat.mod_eq_of_lt (by omega)]; omega)]
    · unfold Arrival.got at *
      omega
  have hle := (arrive c.rounds.length).got_le length c.stream
  refine ⟨by simp only [flatRead, hgot], ?_⟩
  rw [hgot] at hcalm
  dsimp only [flatRead]
  rw [FlatBuffer.data_write_of_eq hend, List.length_append, List.length_take]
  omega

/-- **The loop** on chunks is the loop on a flat buffer, for up to half a node
whatever comes in, and for less than a node when every receive fits. -/
theorem readLoopOn_eq {rounds : Nat} (h : ba.Refines f) (hend : f.position = f.data.length)
    (hlt : f.data.length < ba.baseSize) (hbase : ba.baseSize < 2 ^ 30)
    (hleft : (f.position : Int) + left = length)
    (hcalm : 2 * length ≤ ba.baseSize ∨
      length < ba.baseSize ∧ (readLoopOn arrive length rounds left ba c).2.Fits) :
    ∃ ba', readLoopOn arrive length rounds left ba c =
        (.ok ((readLoop (flatCut arrive) length rounds left f c).1, ba'),
          (readLoop (flatCut arrive) length rounds left f c).2.2) ∧
      ba'.Refines (readLoop (flatCut arrive) length rounds left f c).2.1 ∧
      (readLoop (flatCut arrive) length rounds left f c).2.1.data.length < ba.baseSize ∧
      ba'.baseSize = ba.baseSize := by
  induction rounds generalizing left ba f c with
  | zero =>
      rw [readLoop, readLoopOn]
      dsimp only
      exact ⟨ba, rfl, h, hlt, rfl⟩
  | succ n ih =>
      rw [readLoop, readLoopOn]
      rw [readLoopOn] at hcalm
      by_cases hpos : 0 < left
      · rw [if_pos hpos] at hcalm ⊢
        rw [if_pos hpos]
        obtain ⟨room, ba', hroom, hone, hread, href, hb⟩ :=
          @socketReadOn_spec arrive left length ba f c h (by omega) (by omega) hbase
        rw [hread] at hcalm ⊢
        dsimp only at hcalm ⊢
        -- the receive of this round is among those that fitted
        have hround : 2 * length ≤ ba.baseSize ∨ length < ba.baseSize ∧
            ((arrive c.rounds.length).got room c.stream : Int) ≤ left := by
          refine hcalm.imp_right (And.imp_right fun hfit => ?_)
          have hlast : (flatRead arrive left room f c).2.2.Fits := by
            split at hfit
            · exact hfit
            · exact fits_of_readLoopOn hfit
          exact hlast ⟨left, _⟩ List.mem_cons_self
        obtain ⟨heq, hlt'⟩ := flatRead_calm hend (by omega) hleft hroom hone hround
        rw [heq] at hcalm href ⊢
        have hgrown := @flatRead_end arrive left f c hend length
        rw [socketRead_eq (by omega)]
        generalize flatRead arrive left length f c = out at hcalm href hlt' hgrown ⊢
        obtain ⟨rt, f', c'⟩ := out
        dsimp only at hcalm href hlt' hgrown ⊢
        by_cases hrt : rt ≤ 0
        · rw [if_pos hrt, if_pos hrt]
          dsimp only
          exact ⟨ba', rfl, href, hlt', hb⟩
        · have hleft' : (f'.position : Int) + (left - rt) = length := by
            rw [hgrown.2 (by omega)]
            omega
          rw [if_neg hrt] at hcalm ⊢
          rw [if_neg hrt]
          obtain ⟨ba₂, hrun, href₂, hlt₂, hb₂⟩ :=
            ih href hgrown.1 (hb ▸ hlt') (hb ▸ hbase) hleft' (hb ▸ hcalm)
          exact ⟨ba₂, hrun, href₂, hb ▸ hlt₂, hb₂.trans hb⟩
      · rw [if_neg hpos, if_neg hpos]
        dsimp only
        exact ⟨ba, rfl, h, hlt, rfl⟩

/-- **readFixedSize** into an empty buffer, as far as it is that of the flat
one; everything received lies in the first node. -/
theorem readFixedSizeOn_eq (h : ba.Refines .new) (hbase : ba.baseSize < 2 ^ 30)
    (hcalm : 2 * length ≤ ba.baseSize ∨
      length < ba.baseSize ∧ (readFixedSizeOn arrive ba length c).2.Fits) :
    ∃ ba', readFixedSizeOn arrive ba length c =
        (.ok ((readFixedSize (flatCut arrive) .new length c).1, ba'),
          (readFixedSize (flatCut arrive) .new length c).2.2) ∧
      ba'.Refines (readFixedSize (flatCut arrive) .new length c).2.1 ∧
      (readFixedSize (flatCut arrive) .new length c).2.1.data.length < ba.baseSize ∧
      ba'.baseSize = ba.baseSize := by
  have hint : toInt length = length := toInt_of_lt (by omega) (by omega)
  rw [readFixedSize, hint]
  rw [readFixedSizeOn, hint] at hcalm ⊢
  exact readLoopOn_eq h rfl h.wf.base_pos hbase (by rw [FlatBuffer.position_new]; omega) hcalm

/-- More than a node holds: the first receive runs off the chain. -/
theorem readFixedSizeOn_null (h : ba.WF) (hlong : ba.baseSize < length) (h31 : length < 2 ^ 31)
    {rt : Int} (hrt : arrive c.rounds.length = .recvmsg rt) :
    readFixedSizeOn arrive ba length c = (.error .nullNode, c) := by
  have hint : toInt length = length := toInt_of_lt (by omega) (by omega)
  obtain ⟨hw, -, hb, -⟩ := ByteArray.addCapacity_spec h length
  have hget : ba.getWriteBuffers [] length = .error .nullNode := by
    rw [ByteArray.getWriteBuffers_eq h [] (by omega),
      ByteArray.gather_of_lt ((hb ▸ hw.uniform).drop _) hlong]
    rfl
  obtain ⟨n, rfl⟩ := Nat.exists_eq_add_of_le' (show 0 < length by omega)
  rw [readFixedSizeOn, hint, Int.toNat_natCast, readLoopOn, if_pos (by omega), socketReadOn, hrt]
  simp only [hget]

/-- A connection that is closed. -/
theorem readFixedSizeOn_notConnected (h0 : 0 < length) (h31 : length < 2 ^ 31)
    (hclosed : arrive c.rounds.length = .notConnected) :
    readFixedSizeOn arrive ba length c = (.ok (-1, ba), c.received length 0) := by
  have hint : toInt length = length := toInt_of_lt (by omega) (by omega)
  obtain ⟨n, rfl⟩ := Nat.exists_eq_add_of_le' h0
  rw [readFixedSizeOn, hint, Int.toNat_natCast, readLoopOn, if_pos (by omega), socketReadOn,
    hclosed]
  exact if_pos (by decide)

end

end XzmjxRpc
