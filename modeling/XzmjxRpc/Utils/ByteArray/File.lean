import XzmjxRpc.Utils.ByteArray.Invariant

/-!
# XzmjxRpc.Utils.ByteArray.File

`writeToFile` and `readFromFile`.  The one cuts what is left to read at the
ends of the nodes, the other reads the file in blocks of its own `base_size`
and writes them one after the other.  Neither loses or repeats a byte: two
writes in a row are one (`write_append`), so that reading the file back is one
write of what was left (`readFromFile_writeToFile`).
-/

namespace XzmjxRpc

/-- A file system: the bytes of the files there are, and the names that
`ofstream::open` succeeds on. -/
structure Files (α : Type u) where
  data : String → Option (List α)
  writable : String → Bool

/-- The file `name` holds `bytes`, whatever it held before. -/
def Files.put {α : Type u} (fs : Files α) (name : String) (bytes : List α) : Files α :=
  { fs with data := fun other => if other = name then some bytes else fs.data other }

namespace ByteArray

open Blocks

variable {α : Type u}

/-! ## the code -/

/-- The `while (read_size > 0)` loop of `writeToFile`, on the chain from `cur`
on: what it hands to `ofs.write`. -/
def dumpNodes (base : Nat) : (pos : Nat) → List (List α) → (readSize : Nat) → Except Fault (List α)
  | _, _, 0 => .ok []
  | _, [], _ + 1 => .error .nullNode
  | pos, node :: rest, readSize =>
      let diff := pos % base
      let len := if readSize ≤ base - diff then readSize else base - diff
      match dumpNodes base (pos + len) rest (readSize - len) with
      | .ok out => .ok ((node.drop diff).take len ++ out)
      | .error e => .error e

/-- The chain from `m_cur` on. -/
def chainFromCur (b : ByteArray α) : List (List α) :=
  match b.cur with
  | none => []
  | some i => b.nodes.drop i

/-- `writeToFile(name)`: what it returns, and the files after it. -/
def writeToFile (b : ByteArray α) (fs : Files α) (name : String) : Except Fault (Bool × Files α) :=
  if fs.writable name then
    (dumpNodes b.baseSize b.position b.chainFromCur b.getReadSize).map
      fun bytes => (true, fs.put name bytes)
  else .ok (false, fs)

/-- The `while (!ifs.eof())` loop of `readFromFile`, with `data` the part of the
file not yet read.  A read that gets fewer bytes than it asked for sees the end
of the file; one that gets the last bytes and no fewer does not.  The source
would not come to an end with a `base_size` of 0. -/
def readBlocks [Inhabited α] (base : Nat) (hbase : 0 < base) (b : ByteArray α) (data : List α) :
    Except Fault (ByteArray α) :=
  match b.write (data.take base) with
  | .error e => .error e
  | .ok b => if data.length < base then .ok b else readBlocks base hbase b (data.drop base)
termination_by data.length
decreasing_by
  rw [List.length_drop]
  omega

/-- `readFromFile(name)`: what it returns, and the array after it. -/
def readFromFile [Inhabited α] (b : ByteArray α) (hbase : 0 < b.baseSize) (fs : Files α)
    (name : String) : Except Fault (Bool × ByteArray α) :=
  match fs.data name with
  | none => .ok (false, b)
  | some data => (readBlocks b.baseSize hbase b data).map (true, ·)

/-! ## writing the file -/

theorem dumpNodes_cons {base pos n : Nat} {node : List α} {rest : List (List α)} (hn : 0 < n) :
    dumpNodes base pos (node :: rest) n =
      match dumpNodes base (pos + min n (base - pos % base)) rest
        (n - min n (base - pos % base)) with
      | .ok out => .ok ((node.drop (pos % base)).take (min n (base - pos % base)) ++ out)
      | .error e => .error e := by
  cases n with
  | zero => omega
  | succ n => rfl

/-- The loop hands over the cells at the position, in whichever node they are. -/
theorem dumpNodes_spec {base pos n : Nat} {chain : List (List α)} (hbase : 0 < base)
    (hu : Uniform base chain) (hfit : pos % base + n ≤ base * chain.length) :
    dumpNodes base pos chain n = .ok ((chain.flatten.drop (pos % base)).take n) := by
  rcases Nat.eq_zero_or_pos n with rfl | hn
  · cases chain <;> rfl
  induction chain generalizing pos n with
  | nil =>
      simp only [List.length_nil] at hfit
      omega
  | cons node rest ih =>
      obtain ⟨hnode, hrest⟩ := uniform_cons.mp hu
      have hmod := Nat.mod_lt pos hbase
      have hlen : (node.drop (pos % base)).length = base - pos % base := by
        rw [List.length_drop, hnode]
      rw [dumpNodes_cons hn, List.flatten_cons, List.drop_append_of_le_length (by omega)]
      by_cases hc : n ≤ base - pos % base
      · rw [Nat.min_eq_left hc, Nat.sub_self, List.take_append_of_le_length (by omega)]
        cases rest <;> simp [dumpNodes]
      · -- the next round starts at the first cell of the next node
        have hnext : (pos + (base - pos % base)) % base = 0 := by
          have hdm := Nat.div_add_mod pos base
          have hsum : pos + (base - pos % base) = base * (pos / base + 1) := by
            rw [Nat.mul_succ]
            omega
          rw [hsum, Nat.mul_mod_right]
        rw [List.length_cons, Nat.mul_succ] at hfit
        rw [Nat.min_eq_right (by omega), ih hrest (by omega) (by omega), hnext, List.drop_zero]
        simp only [Except.ok.injEq]
        rw [List.take_append, hlen, List.take_of_length_le (l := node.drop _) (by omega),
          List.take_of_length_le (l := node.drop _) (by omega)]

/-- **writeToFile** stores what is left to read. -/
theorem writeToFile_spec {b : ByteArray α} (h : b.WF) {fs : Files α} {name : String}
    (hw : fs.writable name = true) :
    b.writeToFile fs name = .ok (true, fs.put name (b.content.drop b.position)) := by
  have hpos := h.position_le
  have hsize := h.size_le
  have hdm := Nat.div_add_mod b.position b.baseSize
  have hmod := Nat.mod_lt b.position h.base_pos
  rw [writeToFile, if_pos hw, h.getReadSize_eq]
  have hdump : dumpNodes b.baseSize b.position b.chainFromCur (b.size - b.position) =
      .ok (b.content.drop b.position) := by
    rw [chainFromCur, h.cur_eq_ite]
    by_cases hend : b.position = b.capacity
    · rw [if_pos hend, Nat.sub_eq_zero_of_le (by omega),
        List.drop_eq_nil_of_le (by rw [h.length_content]; omega)]
      rfl
    · rw [if_neg hend]
      have hlt := h.div_lt (p := b.position) (by omega)
      rw [dumpNodes_spec h.base_pos (h.uniform.drop _), ← drop_flatten h.uniform, List.drop_drop,
        hdm, content, List.drop_take, cells]
      rw [List.length_drop, Nat.mul_sub, ← h.capacity_eq]
      omega
  rw [hdump]
  rfl

/-! ## reading it back -/

/-- The layout leaves nothing open but the cells, the position and the size. -/
theorem WF.ext {b c : ByteArray α} (hb : b.WF) (hc : c.WF) (hbase : b.baseSize = c.baseSize)
    (hpos : b.position = c.position) (hsize : b.size = c.size)
    (hlen : b.nodes.length = c.nodes.length) (hcells : b.cells = c.cells) : b = c := by
  have hnodes : b.nodes = c.nodes := hb.uniform.ext (hbase ▸ hc.uniform) hlen hcells
  have hcap : b.capacity = c.capacity := by rw [hb.capacity_eq, hc.capacity_eq, hbase, hlen]
  have hcur : b.cur = c.cur := by
    rw [hb.cur_eq, hc.cur_eq, nodeAt, nodeAt, hpos, hbase, hlen]
  cases b
  cases c
  simp only at hbase hpos hsize hcap hnodes hcur
  subst hbase hpos hsize hcap hnodes hcur
  rfl

/-- The cells after a write, over the cells before it. -/
theorem cells_write [Inhabited α] {b b' : ByteArray α} (h : b.WF) {d : List α} (hd : d ≠ [])
    (hw : b.write d = .ok b') :
    b.capacity ≤ b'.capacity ∧
    b'.cells = splice b.position d
      (b.cells ++ List.replicate (b'.capacity - b.capacity) default) := by
  obtain ⟨c, hc, -, -, -, hcap, -, -, hcells⟩ := write_spec h hd
  cases hc.symm.trans hw
  obtain ⟨-, -, -, -, hgrow, -, hadd, -⟩ := addCapacity_spec h d.length
  rw [hcells, hadd, hcap]
  exact ⟨hgrow, rfl⟩

/-- Two chains that grow one after the other are one chain that grows. -/
theorem splice_grown [Inhabited α] {p m n k : Nat} {d e xs : List α}
    (hd : p + d.length ≤ xs.length + (n - m)) (hm : m ≤ n) (hn : n ≤ k) :
    splice (p + d.length) e
        (splice p d (xs ++ List.replicate (n - m) default) ++ List.replicate (k - n) default) =
      splice p (d ++ e) (xs ++ List.replicate (k - m) default) := by
  have hk : k - m = (n - m) + (k - n) := by omega
  have hlen : (xs ++ List.replicate (n - m) (default : α)).length = xs.length + (n - m) := by
    rw [List.length_append, List.length_replicate]
  rw [hk, ← List.replicate_append_replicate, ← List.append_assoc,
    ← splice_append_of_le (by rw [hlen]; exact hd)]
  apply splice_splice
  rw [List.length_append]
  omega

/-- **Two writes in a row are one write**, down to the nodes. -/
theorem write_append [Inhabited α] {b b₁ : ByteArray α} (h : b.WF) {d e : List α}
    (hd : b.write d = .ok b₁) : b.write (d ++ e) = b₁.write e := by
  by_cases hdn : d = []
  · subst hdn
    cases hd.symm.trans (if_pos rfl)
    rfl
  by_cases hen : e = []
  · rw [hen, List.append_nil, hd, write, if_pos rfl]
  have hne : d ++ e ≠ [] := by simp [hdn]
  obtain ⟨c₁, hc₁, hw₁, hpos₁, hbase₁, -, hsize₁, hlen₁, -⟩ := write_spec h hdn
  cases hc₁.symm.trans hd
  obtain ⟨b₂, hb₂, hw₂, hpos₂, hbase₂, -, hsize₂, hlen₂, -⟩ := write_spec hw₁ hen
  obtain ⟨c, hc, hw, hpos, hbase, -, hsize, hlen, -⟩ := write_spec h hne
  rw [List.length_append, ← Nat.add_assoc] at hpos hsize hlen
  rw [hpos₁] at hpos₂ hsize₂ hlen₂
  rw [hbase₁] at hbase₂ hlen₂
  -- both grow to the number of nodes that the end of `d ++ e` needs
  have hceil : (b.position + d.length) ⌈/⌉ b.baseSize ≤
      (b.position + d.length + e.length) ⌈/⌉ b.baseSize :=
    (gc_mul_ceilDiv h.base_pos).monotone_l (Nat.le_add_right _ _)
  have hnodes : c.nodes.length = b₂.nodes.length := by
    rw [hlen, hlen₂, hlen₁, Nat.max_assoc, Nat.max_eq_right hceil]
  have hcap : c.capacity = b₂.capacity := by
    rw [hw.capacity_eq, hw₂.capacity_eq, hbase, hbase₂, hnodes]
  have hsz : c.size = b₂.size := by
    rw [hsize, hsize₂, hsize₁, Nat.max_assoc, Nat.max_eq_right (Nat.le_add_right _ _)]
  obtain ⟨hgrow₁, hcells₁⟩ := cells_write h hdn hd
  obtain ⟨hgrow₂, hcells₂⟩ := cells_write hw₁ hen hb₂
  obtain ⟨-, hcells⟩ := cells_write h hne hc
  have hfit : b.position + d.length ≤ b.cells.length + (b₁.capacity - b.capacity) := by
    rw [h.length_cells, Nat.add_sub_cancel' hgrow₁, ← hpos₁]
    exact hw₁.position_le.trans hw₁.size_le
  rw [hc, hb₂]
  congr 1
  apply hw.ext hw₂ (hbase.trans hbase₂.symm) (hpos.trans hpos₂.symm) hsz hnodes
  rw [hcells, hcap, ← splice_grown hfit hgrow₁ hgrow₂, ← hcells₁, ← hpos₁, hcells₂]

/-- Writing the blocks of a file is writing the file. -/
theorem readBlocks_eq [Inhabited α] {base : Nat} (hbase : 0 < base) {b : ByteArray α} (h : b.WF)
    (data : List α) : readBlocks base hbase b data = b.write data := by
  induction hn : data.length using Nat.strongRecOn generalizing b data with
  | ind n ih =>
      obtain ⟨c, hc, -⟩ := write_effect h (data.take base)
      have hw := (write_wf h hc).1
      rw [readBlocks, hc]
      simp only
      split
      · next hlast => rw [← hc, List.take_of_length_le (by omega)]
      · next hmore =>
          rw [ih _ (by rw [List.length_drop]; omega) hw _ rfl, ← write_append h hc,
            List.take_append_drop]

/-- **File round trip**: `writeToFile` stores exactly what is left to read and
touches no other file, and `readFromFile` of that file is one write of these
bytes, in any array and with any other node size. -/
theorem readFromFile_writeToFile [Inhabited α] {base₁ base₂ : Nat} (hbase₁ : 0 < base₁)
    (hbase₂ : 0 < base₂) {b₁ b₂ : ByteArray α} (h₁ : Reachable base₁ b₁)
    (h₂ : Reachable base₂ b₂) (fs : Files α) (name : String) (hw : fs.writable name = true) :
    ∃ fs', b₁.writeToFile fs name = .ok (true, fs') ∧
      fs'.data name = some (b₁.content.drop b₁.position) ∧
      (∀ other ≠ name, fs'.data other = fs.data other) ∧
      ∃ b₂', b₂.write (b₁.content.drop b₁.position) = .ok b₂' ∧
        ∀ hpos : 0 < b₂.baseSize, b₂.readFromFile hpos fs' name = .ok (true, b₂') := by
  obtain ⟨hw₁, -⟩ := h₁.wf hbase₁
  obtain ⟨hw₂, -⟩ := h₂.wf hbase₂
  obtain ⟨b₂', hwrite, -⟩ := write_effect hw₂ (b₁.content.drop b₁.position)
  have hdata : (fs.put name (b₁.content.drop b₁.position)).data name =
      some (b₁.content.drop b₁.position) := if_pos rfl
  refine ⟨_, writeToFile_spec hw₁ hw, hdata, fun other hne => if_neg hne, b₂', hwrite,
    fun hpos => ?_⟩
  rw [readFromFile, hdata]
  simp only [readBlocks_eq hpos hw₂, hwrite]
  rfl

/-- From nodes of four cells, in the middle of the first, to nodes of two. -/
theorem readFromFile_writeToFile_four_two : ∃ (b₁ b₂ : ByteArray UInt8) (fs : Files UInt8),
    Reachable 4 b₁ ∧ Reachable 2 b₂ ∧ b₁.position = 3 ∧
      b₁.writeToFile ⟨fun _ => none, fun _ => true⟩ "dump" = .ok (true, fs) ∧
      fs.data "dump" = some [4, 5, 6, 7] ∧
      ∃ hpos b₂', b₂.readFromFile hpos fs "dump" = .ok (true, b₂') ∧
        b₂'.content = [4, 5, 6, 7] := by
  have hrun : Lts.Run Step (new 4 : ByteArray UInt8)
      ([.write [1, 2, 3, 4, 5, 6, 7]] ++ [.setPosition 3])
      ⟨3, 4, 8, 7, [[1, 2, 3, 4], [5, 6, 7, 0]], some 0⟩ := .snoc (.single rfl) rfl
  have hnew : Reachable 2 (new 2 : ByteArray UInt8) := ⟨[], .nil⟩
  obtain ⟨fs, hdump, hdata, -, b₂', hwrite, hread⟩ :=
    readFromFile_writeToFile (by decide) (by decide) ⟨_, hrun⟩ hnew
      ⟨fun _ => none, fun _ => true⟩ "dump" rfl
  refine ⟨_, _, fs, ⟨_, hrun⟩, hnew, rfl, hdump, hdata, by decide, b₂', hread _, ?_⟩
  cases hwrite
  rfl

end ByteArray
end XzmjxRpc
