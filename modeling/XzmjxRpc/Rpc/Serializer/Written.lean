import XzmjxRpc.Rpc.Serializer
import XzmjxRpc.Utils.ByteArray.Content

/-!
# XzmjxRpc.Rpc.Serializer.Written

Which bytes of a serializer's buffer were ever written.

Every cell carries what stored it last: `some (e, x)` is the byte `x` stored
after the `e`-th `clear`, and `none` is a cell as `new char[s]` left it.  The
machine runs the serializer's operations on the real, chunked `ByteArray`;
`clears` counts its `clear`s and nothing depends on it.

Two things put never-written cells below the size: `setPosition`, which `skip`
uses and which enlarges the size up to the capacity, and a `<<` whose `m_cur`
an earlier `>>` left behind, which enlarges the size past what it stores.
`Stays` excludes just these.
-/

namespace XzmjxRpc
namespace Serializer

/-! ## a buffer that remembers its writes -/

/-- A cell of the buffer and what stored it. -/
abbrev Cell := Option (Nat × Byte)

/-- A serializer's buffer, and how often it was cleared. -/
structure Buffer where
  bytes : ByteArray Cell
  clears : Nat

/-- A fresh serializer. -/
def fresh (base : Nat) : Buffer := ⟨.new base, 0⟩

/-- The cell was stored after the `e`-th `clear`. -/
def Stored (e : Nat) (c : Cell) : Prop := ∃ x, c = some (e, x)

/-- The cells that a write of `d` stores. -/
def Buffer.stamp (s : Buffer) (d : Bytes) : List Cell := d.map fun x => some (s.clears, x)

/-! ## the calls of `<<` -/

/-- `<<` on a container, call by call: its size, then its elements. -/
def piecesSeq {α : Type} (pieces : α → List Bytes) (data : List α) : List Bytes :=
  writeUint64 (BitVec.ofNat 64 data.length) :: data.flatMap pieces

theorem flatten_piecesSeq {α : Type} {ser : α → Bytes} {pieces : α → List Bytes}
    (h : ∀ o, (pieces o).flatten = ser o) (data : List α) :
    (piecesSeq pieces data).flatten = serializeSeq ser data := by
  rw [piecesSeq, serializeSeq, List.flatten_cons]
  congr 1
  induction data with
  | nil => rfl
  | cons o data ih => rw [List.flatMap_cons, List.flatten_append, h, ih, List.flatMap_cons]

section
variable [Machine]

mutual

/-- The calls of `ByteArray::write` that `<<` makes: a string's length and its
characters, a container's size and elements are written one after the other,
everything else at once. -/
def pieces : (t : Ty) → t.Obj → List Bytes
  | .string, s => [writeUint64 (BitVec.ofNat 64 s.1.length), s.1]
  | .vector t, data => piecesSeq (pieces t) data.1
  | .list t, data => piecesSeq (pieces t) data.1
  | .set t, data => piecesSeq (pieces t) data.1
  | .unorderedSet t, data => piecesSeq (pieces t) data.1
  | .tuple ts, tp => piecesTuple ts tp
  | t, o => [serialize t o]

def piecesTuple : (ts : List Ty) → (Ty.interps ts).Obj → List Bytes
  | [], _ => []
  | t :: ts, (v, vs) => pieces t v ++ piecesTuple ts vs

end

mutual

/-- Together the calls write what `<<` writes. -/
theorem flatten_pieces : (t : Ty) → (o : t.Obj) → (pieces t o).flatten = serialize t o
  | .string, s => by rw [pieces, serialize, writeStringVint]; simp
  | .vector t, data => flatten_piecesSeq (flatten_pieces t) data.1
  | .list t, data => flatten_piecesSeq (flatten_pieces t) data.1
  | .set t, data => flatten_piecesSeq (flatten_pieces t) data.1
  | .unorderedSet t, data => flatten_piecesSeq (flatten_pieces t) data.1
  | .tuple ts, tp => flatten_piecesTuple ts tp
  | .bool, _ | .float, _ | .double, _ | .uint8, _ | .int8, _ | .uint16, _ | .int16, _
  | .uint32, _ | .int32, _ | .uint64, _ | .int64, _ => by simp [pieces]
  | .map _ _, o | .unorderedMap _ _, o => nomatch o

theorem flatten_piecesTuple :
    (ts : List Ty) → (tp : (Ty.interps ts).Obj) → (piecesTuple ts tp).flatten = serializeTuple ts tp
  | [], _ => rfl
  | t :: ts, (v, vs) => by
      rw [piecesTuple, serializeTuple, List.flatten_append, flatten_pieces, flatten_piecesTuple]

end

/-! ## the operations -/

/-- `s << o`. -/
def Buffer.put (s : Buffer) (t : Ty) (o : t.Obj) : Except Fault (ByteArray Cell) :=
  s.bytes.writeAll ((pieces t o).map s.stamp)

omit [Machine] in
/-- `skip(cnt)`; the new position is computed in `size_t`. -/
def Buffer.skip (s : Buffer) (cnt : BitVec 64) : Except Fault (ByteArray Cell) :=
  s.bytes.setPosition ((s.bytes.position + cnt.toNat) % 2 ^ 64)

/-- What reading a cell gives: its byte, or any byte if it was never written. -/
def Cell.Reads : Cell → Byte → Prop
  | some (_, y), x => x = y
  | none, _ => True

/-- The operations of a serializer. -/
inductive Op where
  | put (t : Ty) (o : t.Obj)
  | get (t : Ty) (old : t.Val)
  | skip (cnt : BitVec 64)
  | reset
  | clear
  | toString

/-- One operation, when it returns or throws `std::out_of_range`.  `>>` makes a
number of cursor reads whose bytes decode to a value, or one of them throws and
the ones before it stay done; how the bytes are split into reads is left open. -/
inductive Step : Buffer → Op → Buffer → Prop
  | put {s : Buffer} {t : Ty} {o : t.Obj} {b : ByteArray Cell} :
      s.put t o = .ok b → Step s (.put t o) { s with bytes := b }
  | get {s : Buffer} {t : Ty} {old v : t.Val} {ns : List Nat} {outs : List (List Cell)}
      {d : Bytes} {b : ByteArray Cell} :
      s.bytes.readAll ns = .ok (outs, b) → List.Forall₂ Cell.Reads outs.flatten d →
      Reader.Reads (deserialize t old) d v → Step s (.get t old) { s with bytes := b }
  | getThrows {s : Buffer} {t : Ty} {old : t.Val} {ns : List Nat} {n : Nat} {what : String}
      {outs : List (List Cell)} {b : ByteArray Cell} :
      s.bytes.readAll ns = .ok (outs, b) → b.read n = .error (.outOfRange what) →
      Step s (.get t old) { s with bytes := b }
  | skip {s : Buffer} {cnt : BitVec 64} {b : ByteArray Cell} :
      s.skip cnt = .ok b → Step s (.skip cnt) { s with bytes := b }
  | skipThrows {s : Buffer} {cnt : BitVec 64} {what : String} :
      s.skip cnt = .error (.outOfRange what) → Step s (.skip cnt) s
  | reset {s : Buffer} {b : ByteArray Cell} :
      s.bytes.setPosition 0 = .ok b → Step s .reset { s with bytes := b }
  | clear {s : Buffer} : Step s .clear ⟨s.bytes.clear, s.clears + 1⟩
  | toString {s : Buffer} {out : List Cell} : s.bytes.toString = .ok out → Step s .toString s

/-- The operation does not leave the data: a `skip` ends inside it or is beyond
the capacity too, and a `<<` does not grow it while `m_cur` is behind. -/
def Stays (s : Buffer) : Op → Prop
  | .put t o => s.bytes.Fits (pieces t o)
  | .skip cnt => s.bytes.position + cnt.toNat ≤ s.bytes.size ∨
      s.bytes.capacity < (s.bytes.position + cnt.toNat) % 2 ^ 64
  | _ => True

/-! ## the readable bytes -/

/-- What every operation that stays keeps. -/
structure Intact (s : Buffer) : Prop where
  lags : ∃ lag, s.bytes.Lags lag
  stored : ∀ c ∈ s.bytes.content, Stored s.clears c

omit [Machine] in
theorem intact_fresh {base : Nat} (hbase : 0 < base) : Intact (fresh base) := by
  refine ⟨⟨0, (ByteArray.new_wf hbase).lags⟩, fun c hc => ?_⟩
  rw [fresh, ByteArray.content] at hc
  cases hc

omit [Machine] in
/-- The calls of a `<<` store cells of the current clear. -/
theorem stored_stamp {s : Buffer} {ds : List Bytes} :
    ∀ d ∈ ds.map s.stamp, ∀ c ∈ d, Stored s.clears c := by
  intro d hd c hc
  obtain ⟨bs, -, rfl⟩ := List.mem_map.mp hd
  obtain ⟨x, -, rfl⟩ := List.mem_map.mp hc
  exact ⟨x, rfl⟩

omit [Machine] in
/-- Moving inside the data shows no other cell. -/
theorem Intact.setPosition {s : Buffer} (h : Intact s) {pos : Nat} {b : ByteArray Cell}
    (hp : pos ≤ s.bytes.size) (hs : s.bytes.setPosition pos = .ok b) :
    Intact { s with bytes := b } := by
  obtain ⟨⟨lag, hlag⟩, hall⟩ := h
  obtain ⟨hlag', -, hsize, -, -, hcells⟩ := ByteArray.setPosition_inv hlag hs
  refine ⟨⟨0, hlag'⟩, ?_⟩
  rw [ByteArray.content, hcells, hsize, Nat.max_eq_left hp]
  exact hall

omit [Machine] in
/-- Reading moves the cursor only. -/
theorem Intact.readAll {s : Buffer} (h : Intact s) {ns : List Nat} {outs : List (List Cell)}
    {b : ByteArray Cell} (hr : s.bytes.readAll ns = .ok (outs, b)) :
    Intact { s with bytes := b } := by
  obtain ⟨⟨lag, hlag⟩, hall⟩ := h
  obtain ⟨hlag', hsize, hcells, -⟩ := ByteArray.readAll_lags hlag hr
  refine ⟨hlag', ?_⟩
  rw [ByteArray.content, hcells, hsize]
  exact hall

/-- Every operation that stays keeps the readable cells stored. -/
theorem intact_step {s s' : Buffer} {op : Op} (h : Intact s)
    (hs : Lts.Restrict Step Stays s op s') : Intact s' := by
  obtain ⟨hstay, hs⟩ := hs
  cases hs with
  | put hp =>
      obtain ⟨⟨lag, hlag⟩, hall⟩ := h
      obtain ⟨b', lag', hb', hlag', hall'⟩ := ByteArray.writeAll_content hlag hall stored_stamp
        ((ByteArray.fits_map _).mpr hstay)
      rw [Buffer.put] at hp
      rw [hp, Except.ok.injEq] at hb'
      subst hb'
      exact ⟨⟨lag', hlag'⟩, hall'⟩
  | get hr _ _ => exact h.readAll hr
  | getThrows hr _ => exact h.readAll hr
  | skip hp =>
      rw [Buffer.skip] at hp
      rcases hstay with hin | hout
      · exact h.setPosition ((Nat.mod_le _ _).trans hin) hp
      · rw [ByteArray.setPosition_of_capacity_lt hout] at hp
        cases hp
  | skipThrows _ => exact h
  | reset hp => exact h.setPosition (Nat.zero_le _) hp
  | clear =>
      obtain ⟨lag, hlag⟩ := h.lags
      refine ⟨⟨0, ByteArray.clear_lags hlag⟩, fun c hc => ?_⟩
      rw [ByteArray.content, ByteArray.clear, List.take_zero] at hc
      cases hc
  | toString _ => exact h

/-- In every state that operations that stay lead to, the readable cells were
stored since the last `clear`, no read and no `toString` returns another cell,
and reading or skipping past the data throws. -/
theorem readable_stored {base : Nat} (hbase : 0 < base) {ops : List Op} {s : Buffer}
    (h : Lts.Run (Lts.Restrict Step Stays) (fresh base) ops s) :
    (∀ k < s.bytes.size, ∃ c, s.bytes.cells[k]? = some c ∧ Stored s.clears c) ∧
    (∀ ns outs b, s.bytes.readAll ns = .ok (outs, b) →
      ∀ c ∈ outs.flatten, Stored s.clears c) ∧
    (∀ out, s.bytes.toString = .ok out → ∀ c ∈ out, Stored s.clears c) ∧
    (∀ n, s.bytes.size < s.bytes.position + n →
      s.bytes.read n = .error (.outOfRange "not enough data to read")) ∧
    ∀ cnt : BitVec 64, Stays s (.skip cnt) → s.bytes.size < s.bytes.position + cnt.toNat →
      s.skip cnt = .error (.outOfRange "setPostion out of range") := by
  have hintact := Lts.Run.invariant (I := Intact) (intact_fresh hbase)
    (fun _ _ _ => intact_step) h
  obtain ⟨lag, hlag⟩ := hintact.lags
  have hall := hintact.stored
  refine ⟨fun k hk => ?_, fun ns outs b hr c hc => ?_, fun out ht c hc => ?_,
    fun n hn => ByteArray.read_of_size_lt hlag hn, fun cnt hstay hout => ?_⟩
  · have hlt : k < s.bytes.cells.length := by
      rw [hlag.length_cells]
      exact hk.trans_le hlag.size_le
    have hget := List.getElem?_eq_getElem hlt
    exact ⟨_, hget, hall _ (ByteArray.mem_content.mpr ⟨k, hk, hget⟩)⟩
  · obtain ⟨-, -, -, hout⟩ := ByteArray.readAll_lags hlag hr
    exact hall c (hout c hc)
  · rw [ByteArray.toString_lags hlag ht] at hc
    exact hall c (List.mem_of_mem_drop hc)
  · rcases hstay with hin | hbeyond
    · omega
    · exact ByteArray.setPosition_of_capacity_lt hbeyond

/-! ## nothing less would do -/

/-- What every operation keeps: nothing above the size was stored since the
last `clear`, and nothing was stored by a later one. -/
structure Unused (s : Buffer) : Prop where
  beyond : ∀ k c, s.bytes.size ≤ k → s.bytes.cells[k]? = some c → ¬ Stored s.clears c
  past : ∀ c ∈ s.bytes.cells, ∀ e x, c = some (e, x) → e ≤ s.clears

omit [Machine] in
theorem not_stored_default (e : Nat) : ¬ Stored e (default : Cell) := by
  rintro ⟨x, hx⟩
  cases hx

omit [Machine] in
theorem unused_fresh (base : Nat) : Unused (fresh base) := by
  have hnone : ∀ c ∈ (fresh base).bytes.cells, c = none := by
    intro c hc
    simp only [fresh, ByteArray.new, ByteArray.cells, List.flatten_cons, List.flatten_nil,
      List.append_nil] at hc
    exact List.eq_of_mem_replicate hc
  refine ⟨fun k c _ hc => ?_, fun c hc e x he => ?_⟩
  · rw [hnone c (List.mem_of_getElem? hc)]
    exact not_stored_default _
  · rw [hnone c hc] at he
    cases he

omit [Machine] in
/-- The same cells and no smaller a size. -/
theorem Unused.of_cells {s : Buffer} (h : Unused s) {b : ByteArray Cell}
    (hcells : b.cells = s.bytes.cells) (hsize : s.bytes.size ≤ b.size) :
    Unused { s with bytes := b } := by
  refine ⟨fun k c hk hc => ?_, ?_⟩
  · rw [hcells] at hc
    exact h.beyond k c (hsize.trans hk) hc
  · rw [hcells]
    exact h.past

omit [Machine] in
theorem Unused.setPosition {s : Buffer} (h : Unused s) {lag : Nat} (hlag : s.bytes.Lags lag)
    {pos : Nat} {b : ByteArray Cell} (hs : s.bytes.setPosition pos = .ok b) :
    Unused { s with bytes := b } := by
  obtain ⟨-, -, hsize, -, -, hcells⟩ := ByteArray.setPosition_inv hlag hs
  exact h.of_cells hcells (by omega)

theorem unused_step {s s' : Buffer} {op : Op} {lag : Nat} (hlag : s.bytes.Lags lag)
    (h : Unused s) (hs : Step s op s') : Unused s' := by
  cases hs with
  | put hp =>
      refine ByteArray.writeAll_keeps (I := fun b => Unused { s with bytes := b }) hlag ?_ h hp
      rintro d hd b b' lag hlag hi hw
      refine ⟨ByteArray.write_beyond (not_stored_default _) hlag hw hi.beyond,
        ByteArray.write_cells (fun e x he => by cases he) hlag hw hi.past ?_⟩
      intro c hc e x he
      obtain ⟨y, hy⟩ := stored_stamp d hd c hc
      rw [hy] at he
      cases he
      exact Nat.le_refl _
  | get hr _ _ =>
      obtain ⟨-, hsize, hcells, -⟩ := ByteArray.readAll_lags hlag hr
      exact h.of_cells hcells (by omega)
  | getThrows hr _ =>
      obtain ⟨-, hsize, hcells, -⟩ := ByteArray.readAll_lags hlag hr
      exact h.of_cells hcells (by omega)
  | skip hp => exact h.setPosition hlag hp
  | skipThrows _ => exact h
  | reset hp => exact h.setPosition hlag hp
  | clear =>
      have hsub : ∀ c ∈ s.bytes.clear.cells, c ∈ s.bytes.cells := by
        intro c hc
        simp only [ByteArray.clear, ByteArray.cells] at hc ⊢
        obtain ⟨node, hnode, hc⟩ := List.mem_flatten.mp hc
        exact List.mem_flatten.mpr ⟨node, List.mem_of_mem_take hnode, hc⟩
      refine ⟨fun k c _ hc => ?_, fun c hc e x he => ?_⟩
      · -- what is left in the first node was stored before this `clear`
        rintro ⟨x, hx⟩
        have := h.past c (hsub c (List.mem_of_getElem? hc)) _ x hx
        simp only at this
        omega
      · exact (h.past c (hsub c hc) e x he).trans (Nat.le_succ _)
  | toString _ => exact h

/-- **Exactness**: after operations that stay, the next one stays exactly if it
shows no never-written byte and does not move past the data. -/
theorem stays_iff {base : Nat} (hbase : 0 < base) {ops : List Op} {op : Op} {s s' : Buffer}
    (h : Lts.Run (Lts.Restrict Step Stays) (fresh base) ops s) (hs : Step s op s') :
    Stays s op ↔ (∀ c ∈ s'.bytes.content, Stored s'.clears c) ∧
      ∀ cnt, op = .skip cnt → s.bytes.size < s.bytes.position + cnt.toNat →
        s.skip cnt = .error (.outOfRange "setPostion out of range") := by
  obtain ⟨hintact, hunused⟩ := Lts.Run.invariant (I := fun s => Intact s ∧ Unused s)
    ⟨intact_fresh hbase, unused_fresh base⟩
    (fun s op s' hi hr => ⟨intact_step hi.1 hr, by
      obtain ⟨lag, hlag⟩ := hi.1.lags
      exact unused_step hlag hi.2 hr.2⟩) h
  obtain ⟨lag, hlag⟩ := hintact.lags
  constructor
  · rintro hstay
    refine ⟨(intact_step hintact ⟨hstay, hs⟩).stored, ?_⟩
    rintro cnt rfl hout
    rcases hstay with hin | hbeyond
    · omega
    · exact ByteArray.setPosition_of_capacity_lt hbeyond
  · rintro ⟨hall, hskip⟩
    cases op with
    | put t o =>
        by_contra hfit
        cases hs with
        | put hp =>
            obtain ⟨c, hc, hnot⟩ := ByteArray.writeAll_lost (not_stored_default s.clears) hlag
              hunused.beyond hp (fun hf => hfit ((ByteArray.fits_map _).mp hf))
            exact hnot (hall c hc)
    | skip cnt =>
        by_contra hout
        simp only [Stays, not_or, Nat.not_le, Nat.not_lt] at hout
        obtain ⟨b, hb, -⟩ := ByteArray.setPosition_lags hlag _ hout.2
        have hthrow := hskip cnt rfl hout.1
        rw [Buffer.skip, hb] at hthrow
        cases hthrow
    | get | reset | clear | toString => trivial

end

/-- `skip(1)` on a fresh serializer succeeds, and `toString` returns the byte
it skipped, which nothing wrote. -/
theorem skip_fresh_unwritten :
    letI := x86_64
    ∃ s, Lts.Run Step (fresh 4096) [.skip 1, .reset] s ∧ s.bytes.size = 1 ∧
      s.bytes.toString = .ok [none] ∧ ¬ Stored s.clears none := by
  let m := x86_64
  have hw : (ByteArray.new 4096 : ByteArray Cell).WF := ByteArray.new_wf (by decide)
  obtain ⟨b, hskip, hlag, -, hsize, hcap, -, hcells⟩ :=
    ByteArray.setPosition_lags hw.lags 1 (show 1 ≤ 4096 by decide)
  obtain ⟨b', hreset, hlag', hpos', hsize', hcap', -, hcells'⟩ :=
    ByteArray.setPosition_lags hlag 0 (Nat.zero_le _)
  have hcnt : ((fresh 4096).bytes.position + (1 : BitVec 64).toNat) % 2 ^ 64 = 1 := by decide
  have hone : b'.size = 1 := by rw [hsize', hsize]; rfl
  have hread : b'.getReadSize = 1 := by rw [hlag'.getReadSize_eq, hone, hpos']
  have hroom : 0 < b'.capacity := by rw [hcap', hcap]; exact Nat.succ_pos _
  refine ⟨⟨b', 0⟩, .snoc (.snoc .nil (.skip (b := b) ?_)) (.reset hreset), hone, ?_,
    not_stored_default 0⟩
  · show b'.readAt b'.getReadSize b'.position = _
    rw [hread, hpos', ByteArray.readAt_lags hlag' (by omega) hroom, hcells', hcells]
    rfl
  · rw [Buffer.skip, hcnt]
    exact hskip

/-- A string written into nodes of four cells, read back, and a skip past it. -/
theorem readable_stored_string :
    letI := x86_64
    ∃ ops s, Lts.Run (Lts.Restrict Step Stays) (fresh 4) ops s ∧ s.bytes.size = 3 ∧
      (∀ k < s.bytes.size, ∃ c, s.bytes.cells[k]? = some c ∧ Stored s.clears c) ∧
      s.skip 2 = .error (.outOfRange "setPostion out of range") := by
  let m := x86_64
  let o : Ty.string.Obj := ⟨[104, 105], by decide⟩
  let node : List Cell := [some (0, 2), some (0, 104), some (0, 105), none]
  have hput : (fresh 4).put .string o = .ok ⟨3, 4, 4, 3, [node], some 0⟩ := by decide +kernel
  have hread : ByteArray.readAll ⟨0, 4, 4, 3, [node], some 0⟩ [1, 2] =
      .ok ([[some (0, 2)], [some (0, 104), some (0, 105)]], ⟨3, 4, 4, 3, [node], some 0⟩) := rfl
  have hrun : Lts.Run (Lts.Restrict Step Stays) (fresh 4)
      ([.put .string o] ++ [.reset] ++ [.get .string []])
      ⟨⟨3, 4, 4, 3, [node], some 0⟩, 0⟩ := by
    refine .snoc (.snoc (.single ⟨.inl rfl, .put hput⟩)
      ⟨trivial, .reset (b := ⟨0, 4, 4, 3, [node], some 0⟩) rfl⟩) ⟨trivial, ?_⟩
    exact .get hread (.cons rfl (.cons rfl (.cons rfl .nil))) (roundTrips .string o [] trivial)
  have h := readable_stored (by decide) hrun
  exact ⟨_, _, hrun, rfl, h.1, h.2.2.2.2 2 (.inr (by decide)) (by decide)⟩

end Serializer
end XzmjxRpc
