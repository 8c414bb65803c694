import XzmjxRpc.Utils.Codec

/-!
# XzmjxRpc.Net.Stream

The receiving side of a connection: `SocketStream::read` and the loop
`Stream::readFixedSize` (`net/socketstream.cpp`, `net/stream.cpp`), over a
flat buffer.

The transport is a function `cut : Nat → Int`: what it would like to return
for the `i`-th receive on the connection.  A value `≤ 0` is returned as it is;
a positive one is cut down to what was asked for and what there is, so that
every number of bytes from 1 up can be returned by some `cut`.

Every retry of the loop asks for the whole `length` again, not for the bytes
still missing.  A receive that returns more than these (`Round.Fits` fails)
takes bytes of what comes next on the stream; while every round fits, the loop
is `readExact` (`readFixedSize_eq`).
-/

namespace XzmjxRpc

/-- Conversion of an integer to `int`. -/
def toInt (n : Int) : Int := n.bmod (2 ^ 32)

theorem toInt_of_lt {n : Int} (h0 : 0 ≤ n) (h : n < 2 ^ 31) : toInt n = n := by
  unfold toInt
  rw [Int.bmod_def, Int.emod_eq_of_lt h0 (by omega)]
  omega

theorem toInt_lt (n : Int) : toInt n < 2 ^ 31 := by
  have h := Int.bmod_lt (x := n) (m := 2 ^ 32) (by decide)
  unfold toInt
  omega

/-- One receive of a `readFixedSize` loop: how many bytes the loop still
needed, and how many it got. -/
structure Round where
  left : Int
  got : Nat
  deriving DecidableEq, Repr

/-- The receive returned no more than was still needed. -/
def Round.Fits (r : Round) : Prop := (r.got : Int) ≤ r.left

instance (r : Round) : Decidable r.Fits := inferInstanceAs (Decidable ((_ : Int) ≤ _))

/-- A connection: the bytes of the peer not yet received, and the receives
made so far, the latest first. -/
structure Conn where
  stream : Bytes
  rounds : List Round := []
  deriving DecidableEq, Repr

/-- Every receive made on the connection fitted. -/
def Conn.Fits (c : Conn) : Prop := ∀ r ∈ c.rounds, r.Fits

instance (c : Conn) : Decidable c.Fits := inferInstanceAs (Decidable (∀ r ∈ c.rounds, r.Fits))

/-! ## receiving -/

/-- How many bytes the next receive of up to `length` bytes returns. -/
def Conn.got (cut : Nat → Int) (c : Conn) (length : Nat) : Nat :=
  min (cut c.rounds.length).toNat (min length c.stream.length)

/-- `SocketStream::read(ba, length)` as the loop of `readFixedSize` calls it,
with `left` bytes missing: `recvmsg` into the buffers that `getWriteBuffers`
hands out, then `setPosition` past what `rt` says was received. -/
def socketRead (cut : Nat → Int) (left : Int) (length : Nat) (ba : FlatBuffer Byte) (c : Conn) :
    Int × FlatBuffer Byte × Conn :=
  if cut c.rounds.length ≤ 0 then
    (cut c.rounds.length, ba, { c with rounds := ⟨left, 0⟩ :: c.rounds })
  else
    let got := c.got cut length
    let rt := toInt got
    (rt, ba.write ((c.stream.take got).take rt.toNat),
      ⟨c.stream.drop got, ⟨left, got⟩ :: c.rounds⟩)

/-- The `while (left > 0)` loop of `readFixedSize`.  Every round but the last
takes at least one off `left`, so `left` rounds are enough. -/
def readLoop (cut : Nat → Int) (length : Nat) :
    (rounds : Nat) → (left : Int) → FlatBuffer Byte → Conn → Int × FlatBuffer Byte × Conn
  | 0, _, ba, c => (toInt length, ba, c)
  | rounds + 1, left, ba, c =>
      if 0 < left then
        match socketRead cut left length ba c with
        | (rt, ba, c) => if rt ≤ 0 then (rt, ba, c) else readLoop cut length rounds (left - rt) ba c
      else (toInt length, ba, c)

/-- `readFixedSize(ba, length)`. -/
def readFixedSize (cut : Nat → Int) (ba : FlatBuffer Byte) (length : Nat) (c : Conn) :
    Int × FlatBuffer Byte × Conn :=
  readLoop cut length (toInt length).toNat (toInt length) ba c

/-- What `readFixedSize` is for: the next `length` bytes of the stream, or all
of them and the result 0 when the stream ends before. -/
def readExact (ba : FlatBuffer Byte) (length : Nat) (stream : Bytes) :
    Int × FlatBuffer Byte × Bytes :=
  let left := (toInt length).toNat
  if left ≤ stream.length then
    (toInt length, ba.write (stream.take left), stream.drop left)
  else (0, ba.write stream, [])

/-- A receive gives no more than was asked for, or than there is. -/
theorem Conn.got_le (cut : Nat → Int) (c : Conn) (length : Nat) :
    c.got cut length ≤ length ∧ c.got cut length ≤ c.stream.length := by
  unfold Conn.got
  omega

/-- A round of a loop that reports success has received something. -/
theorem readLoop_round {cut : Nat → Int} {length n : Nat} {left : Int} {ba : FlatBuffer Byte}
    {c : Conn} (hleft : 0 < left) (h : 0 < (readLoop cut length (n + 1) left ba c).1) :
    0 < toInt (c.got cut length) ∧
      readLoop cut length (n + 1) left ba c =
        readLoop cut length n (left - toInt (c.got cut length))
          (ba.write ((c.stream.take (c.got cut length)).take (toInt (c.got cut length)).toNat))
          ⟨c.stream.drop (c.got cut length), ⟨left, c.got cut length⟩ :: c.rounds⟩ := by
  rw [readLoop, if_pos hleft] at h ⊢
  by_cases hcut : cut c.rounds.length ≤ 0
  · simp only [socketRead, if_pos hcut] at h
    omega
  · simp only [socketRead, if_neg hcut] at h ⊢
    split at h
    · omega
    · next hrt => exact ⟨Int.not_le.mp hrt, if_neg hrt⟩

/-! ## the loop is exact while every round fits -/

theorem write_nil (ba : FlatBuffer Byte) : ba.write [] = ba :=
  FlatBuffer.ext (Blocks.splice_nil _ _) (Nat.add_zero _)

/-- Receives are only ever added. -/
theorem rounds_readLoop (cut : Nat → Int) (length rounds : Nat) (left : Int)
    (ba : FlatBuffer Byte) (c : Conn) :
    ∃ rs, (readLoop cut length rounds left ba c).2.2.rounds = rs ++ c.rounds := by
  induction rounds generalizing left ba c with
  | zero => exact ⟨[], rfl⟩
  | succ n ih =>
      rw [readLoop]
      by_cases hleft : 0 < left
      · rw [if_pos hleft]
        have hread : ∃ r, (socketRead cut left length ba c).2.2.rounds = r :: c.rounds := by
          unfold socketRead
          split <;> exact ⟨_, rfl⟩
        generalize socketRead cut left length ba c = out at hread
        obtain ⟨rt, ba', c'⟩ := out
        obtain ⟨r, hr⟩ := hread
        simp only at hr ⊢
        split
        · exact ⟨[r], hr⟩
        · obtain ⟨rs, hrs⟩ := ih (left - rt) ba' c'
          exact ⟨rs ++ [r], by rw [hrs, hr, List.append_assoc, List.singleton_append]⟩
      · rw [if_neg hleft]
        exact ⟨[], rfl⟩

/-- If all receives fitted after the loop, they did before it. -/
theorem fits_of_readLoop {cut : Nat → Int} {length rounds : Nat} {left : Int}
    {ba : FlatBuffer Byte} {c : Conn} (h : (readLoop cut length rounds left ba c).2.2.Fits) :
    c.Fits := by
  obtain ⟨rs, hrs⟩ := rounds_readLoop cut length rounds left ba c
  intro r hr
  exact h r (by rw [hrs]; exact List.mem_append_right _ hr)

theorem fits_of_readFixedSize {cut : Nat → Int} {ba : FlatBuffer Byte} {length : Nat} {c : Conn}
    (h : (readFixedSize cut ba length c).2.2.Fits) : c.Fits := by
  rw [readFixedSize] at h
  exact fits_of_readLoop h

/-- On a transport that delivers, with every round fitting, the loop takes
exactly the missing bytes, or all there are when the stream ends before. -/
theorem readLoop_eq {cut : Nat → Int} (hcut : ∀ i, 0 < cut i) {length rounds : Nat} {left : Int}
    {ba : FlatBuffer Byte} {c : Conn} (hlen : left ≤ length) (hleft : left < 2 ^ 31)
    (hrounds : left.toNat ≤ rounds) (hfit : (readLoop cut length rounds left ba c).2.2.Fits) :
    ∃ c', readLoop cut length rounds left ba c =
        (if left.toNat ≤ c.stream.length then toInt length else 0,
          ba.write (c.stream.take left.toNat), c') ∧
      c'.stream = c.stream.drop left.toNat := by
  induction rounds generalizing left ba c with
  | zero =>
      have h0 : left.toNat = 0 := by omega
      refine ⟨c, ?_, ?_⟩
      · rw [h0, List.take_zero, write_nil, if_pos (Nat.zero_le _)]
        rfl
      · rw [h0, List.drop_zero]
  | succ n ih =>
      rw [readLoop] at hfit ⊢
      by_cases hpos : 0 < left
      · rw [if_pos hpos] at hfit ⊢
        have hc := hcut c.rounds.length
        simp only [socketRead, if_neg (Int.not_le.mpr hc)] at hfit ⊢
        have hgot : c.got cut length ≤ c.stream.length ∧
            (c.got cut length = 0 → c.stream.length = 0) := by
          unfold Conn.got
          omega
        generalize c.got cut length = got at hfit hgot ⊢
        obtain ⟨hle, hzero⟩ := hgot
        rcases Nat.eq_zero_or_pos got with rfl | hgpos
        · have hnil : c.stream = [] := List.eq_nil_of_length_eq_zero (hzero rfl)
          have hrt : toInt (0 : Nat) = 0 := rfl
          rw [hrt, if_pos (Int.le_refl 0), if_neg (by rw [hnil, List.length_nil]; omega), hnil]
          exact ⟨_, by rw [List.take_nil, List.take_nil, List.take_nil], by simp⟩
        · -- the receive of this round is among those that fitted
          have hround : (got : Int) ≤ left := by
            split at hfit
            · exact hfit ⟨left, got⟩ List.mem_cons_self
            · exact fits_of_readLoop hfit ⟨left, got⟩ List.mem_cons_self
          have hrt : toInt got = got := toInt_of_lt (by omega) (by omega)
          rw [hrt, if_neg (by omega)] at hfit
          obtain ⟨c', hrun, hstream⟩ := ih (by omega) (by omega) (by omega) hfit
          have hsub : (left - got).toNat = left.toNat - got := by omega
          have hadd : got + (left.toNat - got) = left.toNat := by omega
          rw [hsub] at hrun hstream
          refine ⟨c', ?_, ?_⟩
          · rw [hrt, if_neg (by omega), hrun]
            simp only [Int.toNat_natCast, List.length_drop, List.take_take, Nat.min_self,
              FlatBuffer.write_write, ← List.take_add, hadd]
            by_cases henough : left.toNat ≤ c.stream.length
            · rw [if_pos (by omega), if_pos henough]
            · rw [if_neg (by omega), if_neg henough]
          · rw [hstream, List.drop_drop, hadd]
      · have h0 : left.toNat = 0 := by omega
        refine ⟨c, ?_, ?_⟩
        · rw [if_neg hpos, h0, List.take_zero, write_nil, if_pos (Nat.zero_le _)]
        · rw [h0, List.drop_zero]

theorem toInt_natCast_le (n : Nat) : toInt n ≤ n := by
  unfold toInt
  rw [Int.bmod_def]
  split <;> omega

/-- **readFixedSize**, while every round fits: it depends on the bytes of the
stream only. -/
theorem readFixedSize_eq {cut : Nat → Int} (hcut : ∀ i, 0 < cut i) {ba : FlatBuffer Byte}
    {length : Nat} {c : Conn} (hfit : (readFixedSize cut ba length c).2.2.Fits) :
    (readFixedSize cut ba length c).1 = (readExact ba length c.stream).1 ∧
    (readFixedSize cut ba length c).2.1 = (readExact ba length c.stream).2.1 ∧
    (readFixedSize cut ba length c).2.2.stream = (readExact ba length c.stream).2.2 := by
  rw [readFixedSize] at hfit ⊢
  obtain ⟨c', hrun, hstream⟩ := readLoop_eq hcut (toInt_natCast_le length) (toInt_lt length)
    (Nat.le_refl _) hfit
  rw [hrun, readExact]
  generalize (toInt length).toNat = left at hstream ⊢
  by_cases h : left ≤ c.stream.length
  · rw [if_pos h, if_pos h]
    exact ⟨rfl, rfl, hstream⟩
  · rw [if_neg h, if_neg h, List.take_of_length_le (by omega)]
    rw [List.drop_eq_nil_of_le (by omega)] at hstream
    exact ⟨rfl, rfl, hstream⟩

attribute [irreducible] readFixedSize

end XzmjxRpc
