import XzmjxRpc.Net.Stream

/-!
# XzmjxRpc.Net.FixedSize

The loops of `net/stream.cpp` on a transport that takes and delivers as many
bytes at a time as it likes.

The loop on a `ByteArray` asks for the whole `length` in every round; what
makes it send each byte once is the buffer's own position (`writeLoop_spec`).
The loop on raw memory has no position: every round of it starts from the same
pointer again, so it is right exactly when its first round does everything
(`rawFixedSize_iff`).  Both count in an `int`, which a 64-bit length need not
fit (`readSound_iff`, `writeSound_iff`).
-/

namespace XzmjxRpc

open Blocks

/-- A connection, seen from its sender: the bytes sent so far, and how many
writes there were. -/
structure Wire where
  bytes : Bytes
  writes : Nat := 0
  deriving DecidableEq, Repr

/-! ## sending a buffer -/

theorem position_add_toInt_le (ba : FlatBuffer Byte) {k : Nat}
    (h : k ≤ ba.data.length - ba.position) :
    ba.position + (toInt k).toNat ≤ ba.data.length := by
  have hrt : (toInt k).toNat ≤ k := Int.toNat_le.mpr (toInt_natCast_le k)
  have hpos := ba.position_le
  omega

/-- How many bytes the next write of up to `length` bytes sends. -/
def Wire.sent (reply : Nat → Int) (w : Wire) (ba : FlatBuffer Byte) (length : Nat) : Nat :=
  min (min (reply w.writes).toNat length) (ba.data.length - ba.position)

/-- `write(ba, length)` of a transport that would like to return `reply i` for
the `i`-th write: a value `≤ 0` is returned as it is and nothing is sent, a
positive one is cut down to what was asked for and what there is. -/
def streamWrite (reply : Nat → Int) (ba : FlatBuffer Byte) (length : Nat) (w : Wire) :
    Int × FlatBuffer Byte × Wire :=
  if reply w.writes ≤ 0 then (reply w.writes, ba, { w with writes := w.writes + 1 })
  else
    let k := w.sent reply ba length
    (toInt k,
      ba.setPosition (ba.position + (toInt k).toNat)
        (position_add_toInt_le ba (Nat.min_le_right _ _)),
      ⟨w.bytes ++ ba.toString.take k, w.writes + 1⟩)

/-- The `while (left > 0)` loop of `writeFixedSize(ba, length)`. -/
def writeLoop (reply : Nat → Int) (length : Nat) (left : Int) (ba : FlatBuffer Byte) (w : Wire) :
    Int × FlatBuffer Byte × Wire :=
  if 0 < left then
    let r := streamWrite reply ba length w
    if r.1 ≤ 0 then r else writeLoop reply length (left - r.1) r.2.1 r.2.2
  else (toInt length, ba, w)
termination_by left.toNat
decreasing_by
  have hrt : ¬ (streamWrite reply ba length w).1 ≤ 0 := ‹_›
  omega

/-- `writeFixedSize(ba, length)`. -/
def writeFixedSize (reply : Nat → Int) (ba : FlatBuffer Byte) (length : Nat) (w : Wire) :
    Int × FlatBuffer Byte × Wire :=
  writeLoop reply length (toInt length) ba w

section
variable (reply : Nat → Int) {length : Nat} (ba : FlatBuffer Byte) (w : Wire)

/-- One write sends nothing, or the next `k` bytes. -/
theorem streamWrite_cases (hlen : length < 2 ^ 31) :
    (∃ rt ≤ 0, streamWrite reply ba length w = (rt, ba, ⟨w.bytes, w.writes + 1⟩)) ∨
    ∃ (k : Nat) (hk : ba.position + k ≤ ba.data.length), 0 < k ∧
      streamWrite reply ba length w =
        ((k : Int), ba.setPosition (ba.position + k) hk,
          ⟨w.bytes ++ ba.toString.take k, w.writes + 1⟩) := by
  by_cases hreply : reply w.writes ≤ 0
  · exact .inl ⟨_, hreply, if_pos hreply⟩
  · have hk : w.sent reply ba length ≤ length :=
      (Nat.min_le_left _ _).trans (Nat.min_le_right _ _)
    have hle : w.sent reply ba length ≤ ba.data.length - ba.position := Nat.min_le_right _ _
    have hpos := ba.position_le
    have hint : toInt (w.sent reply ba length) = w.sent reply ba length :=
      toInt_of_lt (by omega) (by omega)
    unfold streamWrite
    simp only [if_neg hreply, hint, Int.toNat_natCast]
    rcases Nat.eq_zero_or_pos (w.sent reply ba length) with h0 | h0
    · refine .inl ⟨0, Int.le_refl 0, ?_⟩
      simp only [h0, List.take_zero, List.append_nil]
      rfl
    · exact .inr ⟨_, by omega, h0, rfl⟩

/-- **The loop**: it has at most `left` rounds and sends the next bytes of the
buffer, at least `left` of them if it reports success and fewer if not. -/
theorem writeLoop_spec (hlen : length < 2 ^ 31) (left : Int) :
    ∃ (rt : Int) (n m : Nat) (hm : ba.position + m ≤ ba.data.length),
      writeLoop reply length left ba w =
        (rt, ba.setPosition (ba.position + m) hm,
          ⟨w.bytes ++ ba.toString.take m, w.writes + n⟩) ∧
      n ≤ left.toNat ∧ (0 < rt → left ≤ m) ∧ (rt ≤ 0 → m < left ∨ length = 0) := by
  induction hk : left.toNat using Nat.strongRecOn generalizing left ba w with
  | ind k ih =>
      rw [writeLoop]
      by_cases hleft : 0 < left
      · rw [if_pos hleft]
        rcases streamWrite_cases reply ba w hlen with
          ⟨rt, hrt, hw⟩ | ⟨j, hj, hj0, hw⟩
        · refine ⟨rt, 1, 0, ba.position_le, ?_, by omega, by omega, fun _ => .inl hleft⟩
          simp only [hw, if_pos hrt, List.take_zero, List.append_nil]
          rfl
        · obtain ⟨rt, n, m, hm, hrun, hn, hok, hfail⟩ :=
            ih (left - j).toNat (by omega) _ _ (left - j) rfl
          rw [hw]
          simp only
          rw [if_neg (by omega), hrun]
          refine ⟨rt, n + 1, j + m, ?_, ?_, by omega, by omega, by omega⟩
          · rw [← Nat.add_assoc]
            exact hm
          · have hdrop : (ba.setPosition (ba.position + j) hj).toString = ba.toString.drop j := by
              rw [FlatBuffer.toString, FlatBuffer.toString, List.drop_drop]
              rfl
            rw [hdrop, List.append_assoc, ← List.take_add]
            simp only [FlatBuffer.setPosition, Nat.add_assoc, Nat.add_comm 1]
      · rw [if_neg hleft]
        refine ⟨toInt length, 0, 0, ba.position_le, ?_, Nat.zero_le _, by omega, fun h => ?_⟩
        · simp only [List.take_zero, List.append_nil]
          rfl
        · rw [toInt_of_lt (by omega) (by omega)] at h
          omega

end

/-! ## lengths that do not fit an `int` -/

/-- When `readFixedSize(ba, length)` reports success, at least `length` bytes
have come off the stream and into the buffer. -/
def ReadSound (length : Nat) : Prop :=
  ∀ (cut : Nat → Int) (ba : FlatBuffer Byte) (c : Conn),
    0 < (readFixedSize cut ba length c).1 →
      ∃ m, length ≤ m ∧ m ≤ c.stream.length ∧
        (readFixedSize cut ba length c).2.1 = ba.write (c.stream.take m) ∧
        (readFixedSize cut ba length c).2.2.stream = c.stream.drop m

/-- When `writeFixedSize(ba, length)` reports success, at least `length` bytes
have been sent. -/
def WriteSound (length : Nat) : Prop :=
  ∀ (reply : Nat → Int) (ba : FlatBuffer Byte) (w : Wire),
    0 < (writeFixedSize reply ba length w).1 →
      ∃ sent, (writeFixedSize reply ba length w).2.2.bytes = w.bytes ++ sent ∧
        length ≤ sent.length

/-- A receive loop whose length fits an `int` and that reports success has
received as much. -/
theorem readLoop_ok {cut : Nat → Int} {length rounds : Nat} {left : Int} {ba : FlatBuffer Byte}
    {c : Conn} (hlen : length < 2 ^ 31) (hrounds : left.toNat ≤ rounds)
    (h : 0 < (readLoop cut length rounds left ba c).1) :
    ∃ m : Nat, left ≤ m ∧ m ≤ c.stream.length ∧
      (readLoop cut length rounds left ba c).2.1 = ba.write (c.stream.take m) ∧
      (readLoop cut length rounds left ba c).2.2.stream = c.stream.drop m := by
  induction rounds generalizing left ba c with
  | zero => exact ⟨0, by omega, Nat.zero_le _, (write_nil ba).symm, rfl⟩
  | succ n ih =>
      by_cases hleft : 0 < left
      · obtain ⟨hpos, hround⟩ := readLoop_round hleft h
        have hgot := c.got_le cut length
        generalize c.got cut length = got at hpos hround hgot
        rw [toInt_of_lt (by omega) (by omega)] at hpos hround
        rw [hround] at h ⊢
        obtain ⟨m, hm, hfit, hba, hstream⟩ := ih (by omega) h
        rw [List.length_drop] at hfit
        refine ⟨got + m, by omega, by omega, ?_, ?_⟩
        · rw [hba, FlatBuffer.write_write, List.take_take, Int.toNat_natCast, Nat.min_self,
            ← List.take_add]
        · rw [hstream, List.drop_drop]
      · rw [readLoop, if_neg hleft]
        exact ⟨0, by omega, Nat.zero_le _, (write_nil ba).symm, rfl⟩

section
variable {length l : Nat}

theorem take_replicate_self (l : Nat) (a : Byte) :
    (List.replicate l a).take l = List.replicate l a :=
  List.take_of_length_le (by rw [List.length_replicate])

/-- What the `int` says of the length, if it is positive, is all that a
transport has to deliver. -/
theorem readFixedSize_low (hl : toInt length = l) (h0 : 0 < l) :
    ∃ c', readFixedSize (fun _ => l) .new length ⟨List.replicate l 0, []⟩ =
      ((l : Int), FlatBuffer.new.write (List.replicate l 0), c') := by
  have hlt := toInt_lt length
  have hle := toInt_natCast_le length
  have hgot : (Conn.mk (List.replicate l (0 : Byte)) []).got (fun _ => l) length = l := by
    rw [Conn.got, List.length_replicate]
    omega
  have hint : toInt l = l := toInt_of_lt (by omega) (by omega)
  obtain ⟨n, rfl⟩ : ∃ n, l = n + 1 := ⟨l - 1, by omega⟩
  refine ⟨⟨(List.replicate (n + 1) 0).drop (n + 1), [⟨(n + 1 : Nat), n + 1⟩]⟩, ?_⟩
  rw [readFixedSize, hl, Int.toNat_natCast, readLoop, if_pos (by omega), socketRead,
    if_neg (by omega)]
  simp only [hgot, hint, take_replicate_self, Int.toNat_natCast]
  rw [if_neg (by omega), Int.sub_self]
  cases n <;> simp only [readLoop, hl, Int.lt_irrefl, if_false]

/-- The same for a transport that has to take them. -/
theorem writeFixedSize_low (hl : toInt length = l) (h0 : 0 < l) :
    ∃ ba', writeFixedSize (fun _ => l) (FlatBuffer.new.write (List.replicate l 0)).rewind length
        ⟨[], 0⟩ = ((l : Int), ba', ⟨List.replicate l 0, 1⟩) := by
  have hlt := toInt_lt length
  have hle := toInt_natCast_le length
  generalize hba : (FlatBuffer.new.write (List.replicate l (0 : Byte))).rewind = ba
  have hdata : ba.data = List.replicate l 0 := by
    rw [← hba, FlatBuffer.data_rewind, FlatBuffer.data_new_write]
  have hpos : ba.position = 0 := by
    rw [← hba]
    rfl
  have hsent : (Wire.mk [] 0).sent (fun _ => l) ba length = l := by
    rw [Wire.sent, hdata, hpos, List.length_replicate]
    omega
  have hint : toInt l = l := toInt_of_lt (by omega) (by omega)
  have htake : ba.toString.take l = List.replicate l 0 := by
    rw [FlatBuffer.toString, hpos, List.drop_zero, hdata, take_replicate_self]
  have hfit : ba.position + l ≤ ba.data.length := by
    rw [hpos, hdata, List.length_replicate, Nat.zero_add]
  refine ⟨ba.setPosition (ba.position + l) hfit, ?_⟩
  have hreply : ¬ (l : Int) ≤ 0 := by omega
  rw [writeFixedSize, hl, writeLoop, if_pos (by omega)]
  simp only [streamWrite, if_neg hreply, hsent, hint, htake, Int.toNat_natCast, List.nil_append]
  rw [Int.sub_self, writeLoop, if_neg (Int.lt_irrefl 0), hl]

/-- A length above what the `int` says is not all received. -/
theorem not_readSound (hl : toInt length = l) (h0 : 0 < l) (hlt : l < length) :
    ¬ ReadSound length := by
  intro hsound
  obtain ⟨c', hrun⟩ := readFixedSize_low hl h0
  obtain ⟨m, hm, hfit, -⟩ := hsound _ _ _ (by rw [hrun]; exact Int.natCast_pos.mpr h0)
  rw [List.length_replicate] at hfit
  omega

/-- Nor is it all sent. -/
theorem not_writeSound (hl : toInt length = l) (h0 : 0 < l) (hlt : l < length) :
    ¬ WriteSound length := by
  intro hsound
  obtain ⟨ba', hrun⟩ := writeFixedSize_low hl h0
  obtain ⟨sent, hsent, hfit⟩ := hsound _ _ _ (by rw [hrun]; exact Int.natCast_pos.mpr h0)
  rw [hrun] at hsent
  simp only [List.nil_append] at hsent
  rw [← hsent, List.length_replicate] at hfit
  omega

theorem readSound_of_lt (hlen : length < 2 ^ 31) : ReadSound length := by
  intro cut ba c h
  rw [readFixedSize] at h ⊢
  obtain ⟨m, hm, hrest⟩ := readLoop_ok hlen (Nat.le_refl _) h
  rw [toInt_of_lt (by omega) (by omega)] at hm
  exact ⟨m, by omega, hrest⟩

theorem writeSound_of_lt (hlen : length < 2 ^ 31) : WriteSound length := by
  intro reply ba w h
  rw [writeFixedSize] at h ⊢
  obtain ⟨rt, n, m, hm, hrun, -, hok, -⟩ := writeLoop_spec reply ba w hlen (toInt length)
  rw [hrun] at h ⊢
  have hleft := hok h
  rw [toInt_of_lt (by omega) (by omega)] at hleft
  refine ⟨_, rfl, ?_⟩
  rw [List.length_take, FlatBuffer.toString, List.length_drop]
  omega

/-- Nothing is tried, and success is not reported. -/
theorem readSound_of_nonpos (hneg : toInt length ≤ 0) : ReadSound length := by
  intro cut ba c h
  rw [readFixedSize, Int.toNat_of_nonpos hneg, readLoop] at h
  simp only at h
  omega

theorem writeSound_of_nonpos (hneg : toInt length ≤ 0) : WriteSound length := by
  intro reply ba w h
  rw [writeFixedSize, writeLoop, if_neg (by omega)] at h
  simp only at h
  omega

/-- Any other length has a low half below it. -/
theorem exists_low (h : ¬ (length < 2 ^ 31 ∨ toInt length ≤ 0)) :
    ∃ l : Nat, toInt length = l ∧ 0 < l ∧ l < length := by
  have hle := toInt_natCast_le length
  have hlt := toInt_lt length
  obtain ⟨l, hl⟩ := Int.eq_ofNat_of_zero_le (a := toInt length) (by omega)
  exact ⟨l, hl, by omega, by omega⟩

end

/-- **Success**, exactly: it can be trusted for the lengths that fit an `int`,
and for those whose low half is not positive, on which nothing is tried. -/
theorem sound_iff (length : Nat) :
    (ReadSound length ↔ length < 2 ^ 31 ∨ toInt length ≤ 0) ∧
    (WriteSound length ↔ length < 2 ^ 31 ∨ toInt length ≤ 0) := by
  constructor
  · constructor
    · intro hsound
      by_contra hc
      obtain ⟨l, hl, h0, hlt⟩ := exists_low hc
      exact not_readSound hl h0 hlt hsound
    · exact fun hc => hc.elim readSound_of_lt readSound_of_nonpos
  · constructor
    · intro hsound
      by_contra hc
      obtain ⟨l, hl, h0, hlt⟩ := exists_low hc
      exact not_writeSound hl h0 hlt hsound
    · exact fun hc => hc.elim writeSound_of_lt writeSound_of_nonpos

/-- A header that announces `2 ^ 32 + 1` bytes: one byte is received, or sent,
and the call returns 1. -/
theorem not_sound_wrapped :
    (readFixedSize (fun _ => 1) .new (2 ^ 32 + 1) ⟨[7], []⟩).1 = 1 ∧
    (readFixedSize (fun _ => 1) .new (2 ^ 32 + 1) ⟨[7], []⟩).2.1.data = [7] ∧
    ¬ ReadSound (2 ^ 32 + 1) ∧ ¬ WriteSound (2 ^ 32 + 1) := by
  have h1 : toInt (2 ^ 32 + 1 : Nat) = (1 : Nat) := by decide
  refine ⟨?_, ?_, not_readSound h1 Nat.zero_lt_one (by decide),
    not_writeSound h1 Nat.zero_lt_one (by decide)⟩
  · rw [readFixedSize]
    decide
  · rw [readFixedSize]
    decide

/-! ## raw memory -/

/-- `write(buf, length)` on raw memory. -/
def rawWrite (reply : Nat → Int) (buf : Bytes) (length : Nat) (w : Wire) : Int × Wire :=
  if reply w.writes ≤ 0 then (reply w.writes, { w with writes := w.writes + 1 })
  else
    let k := min (reply w.writes).toNat length
    (toInt k, ⟨w.bytes ++ buf.take k, w.writes + 1⟩)

/-- The `while (left > 0)` loop of `writeFixedSize(buf, length)`. -/
def rawWriteLoop (reply : Nat → Int) (buf : Bytes) (length : Nat) (left : Int) (w : Wire) :
    Int × Wire :=
  if 0 < left then
    let r := rawWrite reply buf length w
    if r.1 ≤ 0 then r else rawWriteLoop reply buf length (left - r.1) r.2
  else (toInt length, w)
termination_by left.toNat
decreasing_by
  have hrt : ¬ (rawWrite reply buf length w).1 ≤ 0 := ‹_›
  omega

/-- `writeFixedSize(buf, length)` on raw memory. -/
def rawWriteFixedSize (reply : Nat → Int) (buf : Bytes) (length : Nat) (w : Wire) : Int × Wire :=
  rawWriteLoop reply buf length (toInt length) w

/-- `read(buf, left)` on raw memory: the bytes received are stored from `buf`
on. -/
def rawRead (cut : Nat → Int) (left : Int) (buf : Bytes) (c : Conn) : Int × Bytes × Conn :=
  if cut c.rounds.length ≤ 0 then
    (cut c.rounds.length, buf, { c with rounds := ⟨left, 0⟩ :: c.rounds })
  else
    let got := c.got cut left.toNat
    (toInt got, splice 0 (c.stream.take got) buf, ⟨c.stream.drop got, ⟨left, got⟩ :: c.rounds⟩)

/-- The `while (left > 0)` loop of `readFixedSize(buf, length)`. -/
def rawReadLoop (cut : Nat → Int) (length : Nat) (left : Int) (buf : Bytes) (c : Conn) :
    Int × Bytes × Conn :=
  if 0 < left then
    let r := rawRead cut left buf c
    if r.1 ≤ 0 then r else rawReadLoop cut length (left - r.1) r.2.1 r.2.2
  else (toInt length, buf, c)
termination_by left.toNat
decreasing_by
  have hrt : ¬ (rawRead cut left buf c).1 ≤ 0 := ‹_›
  omega

/-- `readFixedSize(buf, length)` on raw memory. -/
def rawReadFixedSize (cut : Nat → Int) (length : Nat) (buf : Bytes) (c : Conn) :
    Int × Bytes × Conn :=
  rawReadLoop cut length (toInt length) buf c

/-! ### sending -/

section
variable {reply : Nat → Int}

/-- A round of the loop on a transport that takes something. -/
theorem rawWriteLoop_round (hreply : ∀ i, 0 < reply i) (buf : Bytes) (length : Nat) (left : Int)
    (w : Wire) (h0 : 0 < length) (hlen : length < 2 ^ 31) (hleft : 0 < left) :
    ∃ k, k = min (reply w.writes).toNat length ∧ 0 < k ∧
      rawWriteLoop reply buf length left w =
        rawWriteLoop reply buf length (left - k) ⟨w.bytes ++ buf.take k, w.writes + 1⟩ := by
  have hpos := hreply w.writes
  have hint : toInt (min (reply w.writes).toNat length : Nat) =
      (min (reply w.writes).toNat length : Nat) := toInt_of_lt (by omega) (by omega)
  refine ⟨_, rfl, by omega, ?_⟩
  rw [rawWriteLoop, if_pos hleft]
  simp only [rawWrite, if_neg (Int.not_le.mpr hpos), hint]
  rw [if_neg (by omega)]

/-- What has been sent stays sent. -/
theorem rawWriteLoop_extends (hreply : ∀ i, 0 < reply i) (buf : Bytes) (length : Nat)
    (left : Int) (w : Wire) (h0 : 0 < length) (hlen : length < 2 ^ 31) :
    ∃ more, (rawWriteLoop reply buf length left w).2.bytes = w.bytes ++ more := by
  induction hk : left.toNat using Nat.strongRecOn generalizing left w with
  | ind n ih =>
      by_cases hleft : 0 < left
      · obtain ⟨k, -, hk0, hround⟩ := rawWriteLoop_round hreply buf length left w h0 hlen hleft
        rw [hround]
        obtain ⟨more, hmore⟩ := ih (left - k).toNat (by omega) _ _ rfl
        exact ⟨buf.take k ++ more, by rw [hmore, List.append_assoc]⟩
      · rw [rawWriteLoop, if_neg hleft]
        exact ⟨[], (List.append_nil _).symm⟩

/-- A string that the first round does not send whole is begun again. -/
theorem rawWriteFixedSize_again (hreply : ∀ i, 0 < reply i) (d : Bytes) {n : Nat}
    (hn : n < 2 ^ 31) {w : Wire} (hshort : reply w.writes < n) :
    ∃ k more, 0 < k ∧ k < n ∧
      (rawWriteFixedSize reply d n w).2.bytes = w.bytes ++ (d.take k ++ (d.take 1 ++ more)) := by
  have hpos := hreply w.writes
  obtain ⟨k, hk, hk0, hfirst⟩ :=
    rawWriteLoop_round hreply d n n w (by omega) hn (by omega)
  obtain ⟨j, -, hj0, hsecond⟩ :=
    rawWriteLoop_round hreply d n (n - k) ⟨w.bytes ++ d.take k, w.writes + 1⟩ (by omega) hn
      (by omega)
  obtain ⟨more, hmore⟩ :=
    rawWriteLoop_extends hreply d n (n - k - j)
      ⟨w.bytes ++ d.take k ++ d.take j, w.writes + 1 + 1⟩ (by omega) hn
  have hj : d.take j = d.take 1 ++ (d.take j).drop 1 := by
    conv => lhs; rw [← List.take_append_drop 1 (d.take j), List.take_take, Nat.min_eq_left hj0]
  refine ⟨k, (d.take j).drop 1 ++ more, hk0, by omega, ?_⟩
  rw [rawWriteFixedSize, toInt_of_lt (by omega) (by omega), hfirst, hsecond, hmore,
    ← List.append_assoc (d.take 1), ← hj, List.append_assoc, List.append_assoc]

/-- **Sending raw memory**, exactly: for a transport to get every string of a
length right, it has to take the whole of it at once. -/
theorem rawWriteFixedSize_iff (hreply : ∀ i, 0 < reply i) {n : Nat} (hn : n < 2 ^ 31) (w : Wire) :
    (∀ d : Bytes, d.length = n → (rawWriteFixedSize reply d n w).2.bytes = w.bytes ++ d) ↔
      n ≤ reply w.writes := by
  have hpos := hreply w.writes
  have hint : toInt n = n := toInt_of_lt (by omega) (by omega)
  constructor
  · -- a string whose first byte is its own shows where the loop begins again
    intro hall
    by_contra hc
    obtain ⟨n, rfl⟩ : ∃ m, n = m + 1 := ⟨n - 1, by omega⟩
    have hd : (0 :: List.replicate n 1 : Bytes).length = n + 1 := by simp
    obtain ⟨k, more, hk0, hkn, hagain⟩ := rawWriteFixedSize_again hreply
      (0 :: List.replicate n 1) hn (Int.not_le.mp hc)
    rw [hall _ hd, List.append_cancel_left_eq] at hagain
    have hlen : ((0 :: List.replicate n 1 : Bytes).take k).length = k := by
      rw [List.length_take, hd]
      omega
    have hat := congrArg (fun bs => bs[k]?) hagain
    simp only [List.getElem?_append_right (Nat.le_of_eq hlen), hlen, Nat.sub_self] at hat
    obtain ⟨i, rfl⟩ : ∃ i, k = i + 1 := ⟨k - 1, by omega⟩
    rw [List.getElem?_cons_succ, List.getElem?_replicate, if_pos (by omega)] at hat
    cases hat
  · intro hc d hd
    rcases Nat.eq_zero_or_pos n with rfl | h0
    · rw [List.eq_nil_of_length_eq_zero hd, List.append_nil, rawWriteFixedSize, rawWriteLoop,
        if_neg (by rw [hint]; omega)]
    · obtain ⟨k, hk, -, hround⟩ := rawWriteLoop_round hreply d n n w h0 hn (by omega)
      have hkn : k = n := by omega
      rw [rawWriteFixedSize, hint, hround, hkn, Int.sub_self, rawWriteLoop,
        if_neg (Int.lt_irrefl 0), ← hd, List.take_length]

end

/-! ### receiving -/

section
variable {cut : Nat → Int}

theorem length_splice_take {s buf : Bytes} {k : Nat} (hs : k ≤ s.length) (hbuf : k ≤ buf.length) :
    (splice 0 (s.take k) buf).length = buf.length :=
  length_splice_of_le (by rw [List.length_take]; omega)

/-- `k` bytes at the front leave what is behind them. -/
theorem getElem?_splice_take (s buf : Bytes) {k j : Nat} (hkj : k ≤ j) :
    (splice 0 (s.take k) buf)[j]? = buf[j]? := by
  have hlen := List.length_take_le k s
  rw [getElem?_splice (Nat.zero_le _), if_neg (by omega)]

/-- A round of the loop on a transport that has something to deliver. -/
theorem rawReadLoop_round (hcut : ∀ i, 0 < cut i) (length : Nat) (left : Int) (buf : Bytes)
    (c : Conn) (hleft : 0 < left) (hlt : left < 2 ^ 31) (hfit : left ≤ c.stream.length) :
    ∃ k : Nat, k = min (cut c.rounds.length).toNat left.toNat ∧ 0 < k ∧
      rawReadLoop cut length left buf c =
        rawReadLoop cut length (left - k) (splice 0 (c.stream.take k) buf)
          ⟨c.stream.drop k, ⟨left, k⟩ :: c.rounds⟩ := by
  have hpos := hcut c.rounds.length
  have hgot : c.got cut left.toNat = min (cut c.rounds.length).toNat left.toNat := by
    rw [Conn.got]
    omega
  have hint : toInt (min (cut c.rounds.length).toNat left.toNat : Nat) =
      (min (cut c.rounds.length).toNat left.toNat : Nat) := toInt_of_lt (by omega) (by omega)
  refine ⟨_, rfl, by omega, ?_⟩
  rw [rawReadLoop, if_pos hleft]
  simp only [rawRead, if_neg (Int.not_le.mpr hpos), hgot, hint]
  rw [if_neg (by omega)]

/-- The loop takes `left` bytes off the stream, and stores nothing from
`buf + left` on. -/
theorem rawReadLoop_spec (hcut : ∀ i, 0 < cut i) (length : Nat) (left : Int) (buf : Bytes)
    (c : Conn) (hlt : left < 2 ^ 31) (hbuf : left ≤ buf.length) (hfit : left ≤ c.stream.length) :
    (rawReadLoop cut length left buf c).2.2.stream = c.stream.drop left.toNat ∧
      ∀ j : Nat, left ≤ j → (rawReadLoop cut length left buf c).2.1[j]? = buf[j]? := by
  induction hk : left.toNat using Nat.strongRecOn generalizing left buf c with
  | ind n ih =>
      by_cases hleft : 0 < left
      · obtain ⟨k, hk, hk0, hround⟩ := rawReadLoop_round hcut length left buf c hleft hlt hfit
        have hlen : (splice 0 (c.stream.take k) buf).length = buf.length :=
          length_splice_take (by omega) (by omega)
        obtain ⟨hstream, hframe⟩ := ih (left - k).toNat (by omega) (left - k)
          (splice 0 (c.stream.take k) buf) ⟨c.stream.drop k, ⟨left, k⟩ :: c.rounds⟩ (by omega)
          (by omega) (by rw [List.length_drop]; omega) rfl
        rw [hround]
        refine ⟨?_, fun j hj => ?_⟩
        · rw [hstream, List.drop_drop]
          congr 1
          omega
        · rw [hframe j (by omega), getElem?_splice_take _ _ (by omega)]
      · rw [rawReadLoop, if_neg hleft]
        have h0 : n = 0 := by omega
        exact ⟨by rw [h0, List.drop_zero], fun _ _ => rfl⟩

/-- When the first round does not deliver all `n` bytes, no round stores the
last one. -/
theorem rawReadFixedSize_last (hcut : ∀ i, 0 < cut i) {n : Nat} (hn : n + 1 < 2 ^ 31)
    {buf : Bytes} (hbuf : buf.length = n + 1) {c : Conn} (hfit : n + 1 ≤ c.stream.length)
    (hshort : cut c.rounds.length < n + 1) :
    (rawReadFixedSize cut (n + 1) buf c).2.1[n]? = buf[n]? := by
  have hpos := hcut c.rounds.length
  obtain ⟨k, hk, hk0, hround⟩ := rawReadLoop_round hcut (n + 1) (n + 1 : Nat) buf c (by omega)
    (by omega) (by omega)
  have hlen : (splice 0 (c.stream.take k) buf).length = buf.length :=
    length_splice_take (by omega) (by omega)
  obtain ⟨-, hframe⟩ := rawReadLoop_spec hcut (n + 1) ((n + 1 : Nat) - k)
    (splice 0 (c.stream.take k) buf) ⟨c.stream.drop k, ⟨(n + 1 : Nat), k⟩ :: c.rounds⟩ (by omega)
    (by omega) (by rw [List.length_drop]; omega)
  rw [rawReadFixedSize, toInt_of_lt (by omega) (by omega), hround, hframe n (by omega),
    getElem?_splice_take _ _ (by omega)]

/-- **Receiving into raw memory**, exactly: for a transport to get every string
of a length right, it has to deliver the whole of it at once. -/
theorem rawReadFixedSize_iff (hcut : ∀ i, 0 < cut i) {n : Nat} (hn : n < 2 ^ 31)
    (rounds : List Round) :
    (∀ d buf rest : Bytes, d.length = n → buf.length = n →
        (rawReadFixedSize cut n buf ⟨d ++ rest, rounds⟩).2.1 = d ∧
        (rawReadFixedSize cut n buf ⟨d ++ rest, rounds⟩).2.2.stream = rest) ↔
      n ≤ cut rounds.length := by
  have hpos := hcut rounds.length
  have hint : toInt n = n := toInt_of_lt (by omega) (by omega)
  constructor
  · -- a buffer whose last byte is another one shows that it is not stored
    intro hall
    by_contra hc
    obtain ⟨n, rfl⟩ : ∃ m, n = m + 1 := ⟨n - 1, by omega⟩
    have hrep (a : Byte) : (List.replicate (n + 1) a).length = n + 1 := List.length_replicate
    have hlast := rawReadFixedSize_last hcut hn (hrep 0)
      (c := ⟨List.replicate (n + 1) 1 ++ [], rounds⟩)
      (by rw [List.append_nil, hrep]) (by simpa using hc)
    rw [(hall _ _ [] (hrep 1) (hrep 0)).1, List.getElem?_replicate, List.getElem?_replicate,
      if_pos (Nat.lt_succ_self n), if_pos (Nat.lt_succ_self n)] at hlast
    cases hlast
  · intro hc d buf rest hd hbuf
    have hfit : (n : Int) ≤ (d ++ rest).length := by
      rw [List.length_append]
      omega
    obtain ⟨hstream, -⟩ := rawReadLoop_spec hcut n n buf ⟨d ++ rest, rounds⟩ (by omega) (by omega)
      hfit
    rw [rawReadFixedSize, hint]
    refine ⟨?_, by rw [hstream, Int.toNat_natCast, List.drop_left' hd]⟩
    rcases Nat.eq_zero_or_pos n with rfl | h0
    · rw [rawReadLoop, if_neg (by omega), List.eq_nil_of_length_eq_zero hd,
        List.eq_nil_of_length_eq_zero hbuf]
    · obtain ⟨k, hk, -, hround⟩ := rawReadLoop_round hcut n n buf ⟨d ++ rest, rounds⟩ (by omega)
        (by omega) hfit
      have hkn : k = n := by
        simp only at hk
        omega
      rw [hround, hkn, Int.sub_self, rawReadLoop, if_neg (Int.lt_irrefl 0)]
      simp only
      rw [List.take_left' hd, splice, List.take_zero, List.nil_append, Nat.zero_add,
        List.drop_eq_nil_of_le (by omega), List.append_nil]

end

/-- **Raw memory on both sides**: strings of `n` bytes come through exactly
when the first write takes all `n` and the first read delivers all `n`. -/
theorem rawFixedSize_iff (reply cut : Nat → Int) (hreply : ∀ i, 0 < reply i)
    (hcut : ∀ i, 0 < cut i) {n : Nat} (hn : n < 2 ^ 31) (w : Wire) (rounds : List Round) :
    ((∀ d : Bytes, d.length = n → (rawWriteFixedSize reply d n w).2.bytes = w.bytes ++ d) ↔
      n ≤ reply w.writes) ∧
    ((∀ d buf rest : Bytes, d.length = n → buf.length = n →
        (rawReadFixedSize cut n buf ⟨d ++ rest, rounds⟩).2.1 = d ∧
        (rawReadFixedSize cut n buf ⟨d ++ rest, rounds⟩).2.2.stream = rest) ↔
      n ≤ cut rounds.length) :=
  ⟨rawWriteFixedSize_iff hreply hn w, rawReadFixedSize_iff hcut hn rounds⟩

/-- Three bytes in pieces of at most two: the second round sends the first two
again, and stores the third in front. -/
theorem not_rawFixedSize_two :
    (rawWriteFixedSize (fun _ => 2) [1, 2, 3] 3 ⟨[], 0⟩).2.bytes = [1, 2, 1, 2] ∧
    (rawReadFixedSize (fun _ => 2) 3 [0, 0, 0] ⟨[1, 2, 3], []⟩).2.1 = [3, 2, 0] := by
  have h3 : toInt (3 : Nat) = 3 := by decide
  constructor
  · rw [rawWriteFixedSize, h3, rawWriteLoop, if_pos (by decide)]
    simp only [rawWrite]
    rw [if_neg (by decide), rawWriteLoop, if_pos (by decide)]
    simp only [rawWrite]
    rw [if_neg (by decide), rawWriteLoop, if_neg (by decide)]
    rfl
  · rw [rawReadFixedSize, h3, rawReadLoop, if_pos (by decide)]
    simp only [rawRead]
    rw [if_neg (by decide), rawReadLoop, if_pos (by decide)]
    simp only [rawRead]
    rw [if_neg (by decide), rawReadLoop, if_neg (by decide)]
    rfl

/-- The same bytes, taken and delivered at once. -/
theorem rawFixedSize_iff_three :
    (rawWriteFixedSize (fun _ => 3) [1, 2, 3] 3 ⟨[], 0⟩).2.bytes = [1, 2, 3] ∧
    (rawReadFixedSize (fun _ => 3) 3 [0, 0, 0] ⟨[1, 2, 3, 4], []⟩).2.1 = [1, 2, 3] := by
  obtain ⟨hwrite, hread⟩ := rawFixedSize_iff (fun _ => 3) (fun _ => 3)
    (fun _ => by decide) (fun _ => by decide) (n := 3) (by decide) ⟨[], 0⟩ []
  exact ⟨hwrite.mpr (by decide) _ rfl, (hread.mpr (by decide) [1, 2, 3] _ [4] rfl rfl).1⟩

end XzmjxRpc
