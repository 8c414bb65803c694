/-!
# XzmjxRpc.Lib.Blocks

List plumbing for buffers: overwriting a range of a list (`splice`) and
addressing a list that is stored as a chain of equally long blocks
(`Uniform`).  Everything here is proved once so that the buffer proofs never
redo `take`/`drop` arithmetic.
-/

namespace Blocks

/-! ## overwriting a range -/

/-- `xs` with the cells from position `p` on overwritten by `d`; the list
grows when `d` reaches past its end. -/
def splice (p : Nat) (d xs : List α) : List α := xs.take p ++ d ++ xs.drop (p + d.length)

@[simp] theorem splice_nil (p : Nat) (xs : List α) : splice p [] xs = xs := by
  simp [splice]

theorem length_splice {p : Nat} {d xs : List α} (h : p ≤ xs.length) :
    (splice p d xs).length = max xs.length (p + d.length) := by
  simp only [splice, List.length_append, List.length_take, List.length_drop]
  omega

theorem length_splice_of_le {p : Nat} {d xs : List α} (h : p + d.length ≤ xs.length) :
    (splice p d xs).length = xs.length := by
  rw [length_splice (by omega)]
  omega

/-- The cells of a splice, one by one: `d` inside its range, `xs` outside. -/
theorem getElem?_splice {p : Nat} {d xs : List α} (h : p ≤ xs.length) (i : Nat) :
    (splice p d xs)[i]? = if p ≤ i ∧ i < p + d.length then d[i - p]? else xs[i]? := by
  have hp : (xs.take p).length = p := by rw [List.length_take]; omega
  unfold splice
  rw [List.append_assoc]
  by_cases h1 : i < p
  · rw [if_neg (by omega), List.getElem?_append_left (by omega), List.getElem?_take_of_lt h1]
  · rw [List.getElem?_append_right (by omega), hp]
    by_cases h2 : i < p + d.length
    · rw [if_pos (by omega), List.getElem?_append_left (by omega)]
    · rw [if_neg (by omega), List.getElem?_append_right (by omega), List.getElem?_drop]
      congr 1
      omega

/-- The written range reads back as what was written. -/
theorem take_drop_splice {p : Nat} {d xs : List α} (h : p ≤ xs.length) :
    ((splice p d xs).drop p).take d.length = d := by
  have hp : (xs.take p).length = p := by rw [List.length_take]; omega
  have hdrop : (splice p d xs).drop p = d ++ xs.drop (p + d.length) := by
    rw [splice, List.append_assoc, List.drop_left' hp]
  rw [hdrop, List.take_left]

/-- A range inside the first part of an append leaves the second alone. -/
theorem splice_append_of_le {p : Nat} {d xs ys : List α} (h : p + d.length ≤ xs.length) :
    splice p d (xs ++ ys) = splice p d xs ++ ys := by
  simp only [splice, List.append_assoc]
  rw [List.take_append_of_le_length (by omega), List.drop_append_of_le_length h]

/-- A range inside the second part of an append leaves the first alone. -/
theorem splice_append_right (p : Nat) (d xs ys : List α) :
    splice (xs.length + p) d (xs ++ ys) = xs ++ splice p d ys := by
  simp only [splice, Nat.add_assoc, List.take_length_add_append, List.drop_length_add_append,
    List.append_assoc]

/-- A range that crosses the border of an append splits there. -/
theorem splice_append_cross {p : Nat} {d e xs ys : List α} (h : p + d.length = xs.length) :
    splice p (d ++ e) (xs ++ ys) = splice p d xs ++ splice 0 e ys := by
  simp only [splice, List.length_append, List.append_assoc, List.take_zero, Nat.zero_add,
    List.nil_append]
  rw [List.take_append_of_le_length (by omega), ← Nat.add_assoc, h, List.drop_length_add_append,
    List.drop_length, List.nil_append]

/-- Truncating after the written range: the splice of the truncated list. -/
theorem take_splice {p n : Nat} {d xs : List α} (hp : p ≤ n) (hn : n ≤ xs.length) :
    (splice p d xs).take (max n (p + d.length)) = splice p d (xs.take n) := by
  apply List.ext_getElem?
  intro i
  rw [getElem?_splice (by rw [List.length_take]; omega), List.getElem?_take, List.getElem?_take,
    getElem?_splice (by omega)]
  by_cases h : p ≤ i ∧ i < p + d.length
  · rw [if_pos h, if_pos h, if_pos (by omega)]
  · rw [if_neg h, if_neg h]
    -- outside the range, `i < max n (p + d.length)` and `i < n` can differ only for `n ≤ i < p`
    by_cases hi : i < n
    · rw [if_pos hi, if_pos (by omega)]
    · rw [if_neg hi, if_neg (by omega)]

/-- Two ranges written one after the other are one range. -/
theorem splice_splice {p : Nat} {d e xs : List α} (h : p ≤ xs.length) :
    splice (p + d.length) e (splice p d xs) = splice p (d ++ e) xs := by
  have hp : (xs.take p ++ d).length = p + d.length := by
    rw [List.length_append, List.length_take]
    omega
  unfold splice
  rw [List.take_left' hp, ← List.drop_drop, List.drop_left' hp, List.drop_drop,
    List.length_append, ← List.append_assoc, Nat.add_assoc]

/-- A list spliced in two pieces, cut anywhere. -/
theorem splice_take_drop {p : Nat} {xs : List α} (h : p ≤ xs.length) (n : Nat) (d : List α) :
    splice (p + n) (d.drop n) (splice p (d.take n) xs) = splice p d xs := by
  rcases Nat.lt_or_ge d.length n with hlt | hle
  · rw [List.drop_eq_nil_of_le (by omega), splice_nil, List.take_of_length_le (by omega)]
  · have hjoin := splice_splice (d := d.take n) (e := d.drop n) h
    rwa [List.length_take, Nat.min_eq_left hle, List.take_append_drop] at hjoin

/-! ## chains of equal blocks -/

/-- Every block has `k` cells. -/
def Uniform (k : Nat) (bs : List (List α)) : Prop := ∀ b ∈ bs, b.length = k

theorem uniform_cons {k : Nat} {b : List α} {bs : List (List α)} :
    Uniform k (b :: bs) ↔ b.length = k ∧ Uniform k bs := by
  simp [Uniform]

theorem uniform_append {k : Nat} {as bs : List (List α)} :
    Uniform k (as ++ bs) ↔ Uniform k as ∧ Uniform k bs := by
  constructor
  · intro h
    exact ⟨fun b hb => h b (List.mem_append_left _ hb),
      fun b hb => h b (List.mem_append_right _ hb)⟩
  · rintro ⟨ha, hb⟩ c hc
    rcases List.mem_append.mp hc with h | h
    · exact ha c h
    · exact hb c h

theorem uniform_replicate (k n : Nat) (x : α) :
    Uniform k (List.replicate n (List.replicate k x)) := by
  intro b hb
  rw [List.eq_of_mem_replicate hb, List.length_replicate]

theorem Uniform.take {k : Nat} {bs : List (List α)} (h : Uniform k bs) (i : Nat) :
    Uniform k (bs.take i) := fun b hb => h b (List.mem_of_mem_take hb)

theorem Uniform.drop {k : Nat} {bs : List (List α)} (h : Uniform k bs) (i : Nat) :
    Uniform k (bs.drop i) := fun b hb => h b (List.mem_of_mem_drop hb)

theorem length_flatten {k : Nat} {bs : List (List α)} (h : Uniform k bs) :
    bs.flatten.length = k * bs.length := by
  induction bs with
  | nil => simp
  | cons b bs ih =>
      obtain ⟨hb, hbs⟩ := uniform_cons.mp h
      rw [List.flatten_cons, List.length_append, hb, ih hbs, List.length_cons, Nat.mul_succ]
      omega

/-- Two chains with equal cells have equal blocks. -/
theorem Uniform.ext {k : Nat} {as bs : List (List α)} (ha : Uniform k as) (hb : Uniform k bs)
    (hlen : as.length = bs.length) (h : as.flatten = bs.flatten) : as = bs := by
  induction as generalizing bs with
  | nil => exact (List.eq_nil_of_length_eq_zero hlen.symm).symm
  | cons a as ih =>
      cases bs with
      | nil => cases hlen
      | cons b bs =>
          obtain ⟨ha, has⟩ := uniform_cons.mp ha
          obtain ⟨hb, hbs⟩ := uniform_cons.mp hb
          rw [List.flatten_cons, List.flatten_cons] at h
          obtain ⟨hfst, hrest⟩ := List.append_inj h (ha.trans hb.symm)
          rw [List.length_cons, List.length_cons] at hlen
          rw [hfst, ih has hbs (by omega) hrest]

/-- Dropping `i` whole blocks. -/
theorem drop_flatten {k : Nat} {bs : List (List α)} (h : Uniform k bs) (i : Nat) :
    bs.flatten.drop (k * i) = (bs.drop i).flatten := by
  induction i generalizing bs with
  | zero => simp
  | succ i ih =>
      cases bs with
      | nil => simp
      | cons b bs =>
          obtain ⟨hb, hbs⟩ := uniform_cons.mp h
          rw [List.flatten_cons, List.drop_succ_cons, ← ih hbs, Nat.mul_succ, Nat.add_comm, ← hb,
            List.drop_length_add_append, hb]

/-- Overwriting from block `i` on is a splice at the cell position. -/
theorem flatten_take_append_splice {k : Nat} {bs : List (List α)} (h : Uniform k bs) {i : Nat}
    (hi : i ≤ bs.length) (o : Nat) (d : List α) :
    (bs.take i).flatten ++ splice o d (bs.drop i).flatten = splice (k * i + o) d bs.flatten := by
  have hlen : (bs.take i).flatten.length = k * i := by
    rw [length_flatten (h.take i), List.length_take]
    congr 1
    omega
  conv => rhs; rw [← List.take_append_drop i bs, List.flatten_append]
  rw [← hlen, splice_append_right]

/-- A range inside block `i` is a range of the flattened list. -/
theorem take_drop_getElem? {k : Nat} {bs : List (List α)} (h : Uniform k bs) {i o n : Nat}
    (hi : i < bs.length) (ho : o + n ≤ k) :
    ((bs[i]?.getD []).drop o).take n = (bs.flatten.drop (k * i + o)).take n := by
  have hlen : bs[i].length = k := h _ (List.getElem_mem hi)
  rw [← List.drop_drop, drop_flatten h, List.drop_eq_getElem_cons hi, List.flatten_cons,
    List.drop_append_of_le_length (by omega),
    List.take_append_of_le_length (by rw [List.length_drop]; omega),
    List.getElem?_eq_getElem hi, Option.getD_some]

/-- Overwriting a range inside block `i` is a splice at the cell position. -/
theorem flatten_modify_splice {k : Nat} {bs : List (List α)} (h : Uniform k bs) {i o : Nat}
    {d : List α} (hi : i < bs.length) (ho : o + d.length ≤ k) :
    (bs.modify i (splice o d)).flatten = splice (k * i + o) d bs.flatten := by
  induction bs generalizing i with
  | nil => simp at hi
  | cons b bs ih =>
      obtain ⟨hb, hbs⟩ := uniform_cons.mp h
      cases i with
      | zero =>
          rw [List.modify_zero_cons, List.flatten_cons, List.flatten_cons, Nat.mul_zero,
            Nat.zero_add, splice_append_of_le (by omega)]
      | succ i =>
          have hpos : k * (i + 1) + o = b.length + (k * i + o) := by
            rw [Nat.mul_succ, hb]
            omega
          rw [List.modify_succ_cons, List.flatten_cons, List.flatten_cons,
            ih hbs (by simpa using hi), hpos, splice_append_right]

/-- Overwriting a range inside block `i` keeps the block length. -/
theorem Uniform.modify_splice {k : Nat} {bs : List (List α)} (h : Uniform k bs) {i o : Nat}
    {d : List α} (ho : o + d.length ≤ k) : Uniform k (bs.modify i (splice o d)) := by
  induction bs generalizing i with
  | nil => rwa [List.modify_nil]
  | cons b bs ih =>
      obtain ⟨hb, hbs⟩ := uniform_cons.mp h
      cases i with
      | zero =>
          rw [List.modify_zero_cons]
          exact uniform_cons.mpr ⟨by rw [length_splice_of_le (by omega), hb], hbs⟩
      | succ i =>
          rw [List.modify_succ_cons]
          exact uniform_cons.mpr ⟨hb, ih hbs⟩

end Blocks
