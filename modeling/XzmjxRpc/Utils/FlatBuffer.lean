import XzmjxRpc.Lib.Reader
import XzmjxRpc.Utils.ByteArray.Read

/-!
# XzmjxRpc.Utils.FlatBuffer

What `ByteArray` is for: a flat sequence of cells with one cursor.  Writing
overwrites from the cursor on and grows the data at its end; reading takes
the next cells or throws.

`ByteArray.Refines b f` says that the chunked `b` stands for the flat `f`.
Construction, `write`, `setPosition` and `clear` keep it, and a read from a
buffer that refines returns the flat buffer's cells (`read_refines`); how far
later reads of the chunked buffer follow is `ByteArray.splitInvisible_iff`.
-/

namespace XzmjxRpc

open Blocks

/-- A sequence of cells and a cursor in it. -/
structure FlatBuffer (α : Type u) where
  data : List α
  position : Nat
  position_le : position ≤ data.length
  deriving DecidableEq

namespace FlatBuffer

variable {α : Type u}

/-- A fresh buffer: nothing written. -/
def new : FlatBuffer α := ⟨[], 0, Nat.le_refl _⟩

/-- `toString()`: the cells from the cursor on, which stays. -/
def toString (f : FlatBuffer α) : List α := f.data.drop f.position

/-- `write(d)`: overwrite from the cursor on; the cursor ends after `d`. -/
def write (f : FlatBuffer α) (d : List α) : FlatBuffer α where
  data := splice f.position d f.data
  position := f.position + d.length
  position_le := by
    rw [length_splice f.position_le]
    exact Nat.le_max_right _ _

/-- `setPosition(pos)` to a position inside the data. -/
def setPosition (f : FlatBuffer α) (pos : Nat) (h : pos ≤ f.data.length) : FlatBuffer α :=
  ⟨f.data, pos, h⟩

/-- `setPosition(0)`. -/
def rewind (f : FlatBuffer α) : FlatBuffer α := f.setPosition 0 (Nat.zero_le _)

/-- `clear()`. -/
def clear (_ : FlatBuffer α) : FlatBuffer α := new

/-- The message of the exception that a read past the end throws. -/
def outOfData : Fault := .outOfRange "not enough data to read"

/-- `read(n)`: the next `n` cells. -/
def read (f : FlatBuffer α) (n : Nat) : Except Fault (List α × FlatBuffer α) :=
  if h : f.data.length - f.position < n then .error outOfData
  else
    .ok (f.toString.take n, f.setPosition (f.position + n) (by have := f.position_le; omega))

/-! ## writing -/

theorem ext {f g : FlatBuffer α} (hd : f.data = g.data) (hp : f.position = g.position) : f = g := by
  cases f
  cases g
  simp only at hd hp
  subst hd hp
  rfl

@[simp] theorem data_new : (new : FlatBuffer α).data = [] := rfl
@[simp] theorem position_new : (new : FlatBuffer α).position = 0 := rfl
@[simp] theorem position_write (f : FlatBuffer α) (d : List α) :
    (f.write d).position = f.position + d.length := rfl
@[simp] theorem data_rewind (f : FlatBuffer α) : f.rewind.data = f.data := rfl
@[simp] theorem toString_rewind (f : FlatBuffer α) : f.rewind.toString = f.data := rfl
@[simp] theorem clear_eq (f : FlatBuffer α) : f.clear = new := rfl

/-- Two writes in a row are one write: an encoder may hand over its bytes in
any pieces. -/
theorem write_write (f : FlatBuffer α) (d e : List α) :
    (f.write d).write e = f.write (d ++ e) := by
  apply ext
  · exact splice_splice f.position_le
  · simp only [position_write, List.length_append]
    omega

/-- At the end of the data a write appends. -/
theorem data_write_of_eq {f : FlatBuffer α} (h : f.position = f.data.length) (d : List α) :
    (f.write d).data = f.data ++ d := by
  show splice f.position d f.data = _
  rw [splice, h, List.take_length, List.drop_eq_nil_of_le (by omega), List.append_nil]

@[simp] theorem data_new_write (d : List α) : (new.write d).data = d :=
  data_write_of_eq (f := new) rfl d

/-! ## reading -/

/-- Run a reader on the cells from the cursor on; the cursor ends where the
reader stopped. -/
def run {α β : Type} (m : Reader α Fault β) (f : FlatBuffer α) :
    Except Fault (β × FlatBuffer α) :=
  (m f.toString).map fun (a, rest) =>
    (a, f.setPosition (f.data.length - rest.length) (Nat.sub_le _ _))

/-- What a reader that reads exactly `xs` does on a buffer with `xs` at the cursor. -/
theorem run_of_reads {α β : Type} {m : Reader α Fault β} {xs : List α} {a : β}
    (hm : Reader.Reads m xs a) {f : FlatBuffer α} {rest : List α} (hf : f.toString = xs ++ rest) :
    ∃ g, f.run m = .ok (a, g) ∧ g.data = f.data ∧ g.toString = rest := by
  have hpos := f.position_le
  have hlen : (xs ++ rest).length = f.data.length - f.position := by
    rw [← hf]
    exact List.length_drop
  rw [List.length_append] at hlen
  refine ⟨f.setPosition (f.data.length - rest.length) (Nat.sub_le _ _), ?_, rfl, ?_⟩
  · rw [run, hf, hm rest]
    rfl
  · show f.data.drop (f.data.length - rest.length) = rest
    have hsplit : f.data.length - rest.length = f.position + xs.length := by omega
    rw [hsplit, ← List.drop_drop]
    show f.toString.drop xs.length = rest
    rw [hf, List.drop_left]

end FlatBuffer

/-! ## the chunked buffer refines the flat one -/

namespace ByteArray

variable {α : Type u}

/-- The chunked buffer `b`, whose node pointer is where it should be, holds
the data of `f` and stands at its cursor. -/
structure Refines (b : ByteArray α) (f : FlatBuffer α) : Prop where
  wf : b.WF
  content : b.content = f.data
  position : b.position = f.position

theorem new_refines [Inhabited α] {base : Nat} (h : 0 < base) :
    (new base : ByteArray α).Refines .new :=
  ⟨new_wf h, List.take_zero, rfl⟩

theorem write_refines [Inhabited α] {b : ByteArray α} {f : FlatBuffer α} (h : b.Refines f)
    (d : List α) : ∃ b', b.write d = .ok b' ∧ b'.Refines (f.write d) := by
  by_cases hd : d = []
  · subst hd
    refine ⟨b, if_pos rfl, h.wf, ?_, h.position⟩
    rw [h.content]
    exact (splice_nil _ _).symm
  · obtain ⟨b', hb', hw', hpos, -, -, hsize, -, hcells⟩ := write_spec h.wf hd
    obtain ⟨hw, -, -, hsz, -, -, happ, -⟩ := addCapacity_spec h.wf d.length
    have hold : (b.addCapacity d.length).cells.take b.size = b.content := by
      rw [happ, List.take_append_of_le_length (by rw [h.wf.length_cells]; exact h.wf.size_le),
        content]
    have hle : b.size ≤ (b.addCapacity d.length).cells.length := by
      rw [hw.length_cells, ← hsz]
      exact hw.size_le
    refine ⟨b', hb', hw', ?_, ?_⟩
    · rw [content, hcells, hsize, take_splice h.wf.position_le hle, hold, h.content, h.position]
      rfl
    · rw [hpos, h.position]
      rfl

theorem setPosition_refines {b : ByteArray α} {f : FlatBuffer α} (h : b.Refines f) {pos : Nat}
    (hp : pos ≤ f.data.length) :
    ∃ b', b.setPosition pos = .ok b' ∧ b'.Refines (f.setPosition pos hp) := by
  have hsize : f.data.length = b.size := by rw [← h.content, h.wf.length_content]
  have hle := h.wf.size_le
  have hset := setPosition_spec h.wf (show pos ≤ b.capacity by omega)
  refine ⟨_, hset, setPosition_wf h.wf hset, ?_, rfl⟩
  rw [content, Nat.max_eq_left (by omega)]
  exact h.content

theorem clear_refines {b : ByteArray α} {f : FlatBuffer α} (h : b.Refines f) :
    b.clear.Refines f.clear :=
  ⟨clear_wf h.wf, List.take_zero, rfl⟩

/-- Writing the data and going back to the start: every flat buffer with its
cursor there is refined, with any node size. -/
theorem exists_refines [Inhabited α] {base : Nat} (hbase : 0 < base) {f : FlatBuffer α}
    (h0 : f.position = 0) : ∃ b : ByteArray α, b.Refines f ∧ b.baseSize = base := by
  obtain ⟨b, hwrite, href⟩ := write_refines (new_refines (α := α) hbase) f.data
  obtain ⟨b', hset, href'⟩ := setPosition_refines href (Nat.zero_le _)
  have hf : (FlatBuffer.new.write f.data).setPosition 0 (Nat.zero_le _) = f :=
    FlatBuffer.ext (FlatBuffer.data_new_write _) h0.symm
  refine ⟨b', hf ▸ href', ?_⟩
  rw [setPosition_baseSize hset, (write_wf (new_wf hbase) hwrite).2]
  rfl

/-- **Reads**: from a buffer that refines, a read of at least one cell that
ends off a node border or took whole nodes refines the flat read. -/
theorem read_refines {b : ByteArray α} {f : FlatBuffer α} (h : b.Refines f) {n : Nat} (hn : 0 < n)
    (hfit : f.position + n ≤ f.data.length) (hclean : ¬ endsStale b.baseSize b.position n) :
    ∃ b' f', b.read n = .ok ((f.data.drop f.position).take n, b') ∧
      f.read n = .ok ((f.data.drop f.position).take n, f') ∧ b'.Refines f' := by
  have hsize : f.data.length = b.size := by rw [← h.content, h.wf.length_content]
  have hpos := h.position
  obtain ⟨b', hread, hlag, hpos', hbase', hsize', hcap', hnodes'⟩ :=
    read_spec h.wf.lagging (n := n) (by omega) (by omega)
  have hbytes : behind b.baseSize b.cells 0 b.position n = (f.data.drop f.position).take n := by
    rw [behind, Nat.zero_mul, Nat.sub_zero, hpos, ← h.content, content, List.drop_take,
      List.take_take, Nat.min_eq_left (by omega)]
  rw [staleStep, if_neg hclean] at hlag
  refine ⟨b', f.setPosition (f.position + n) hfit, ?_, ?_, ?_, ?_, ?_⟩
  · rw [hread, hbytes]
  · rw [FlatBuffer.read, dif_neg (by omega)]
    rfl
  · refine ⟨hlag.base_pos, hlag.uniform, ?_, hlag.capacity_eq, hlag.position_le, hlag.size_le, ?_⟩
    · rw [hnodes']
      exact h.wf.nodes_pos
    · rw [hlag.cur_eq, Nat.sub_zero]
  · show b'.content = f.data
    rw [← h.content, content, content, cells, cells, hnodes', hsize']
  · rw [hpos', hpos]
    rfl

end ByteArray

end XzmjxRpc
