import Mathlib.Algebra.Group.Nat.Defs
import Mathlib.Data.Nat.Digits.Defs
import XzmjxRpc.Lib.Reader

/-!
# XzmjxRpc.Lib.Varint

Variable-length coding of `w`-bit words: seven bits a byte, least significant
group first, the top bit of a byte set when another byte follows.

`encode room v` writes into an array of `room` bytes and is `none` when the
array is too small; `read next rounds` reads at most `rounds` bytes.  An array
of `n` bytes and `n` rounds are enough for every word below `128 ^ n`.

The reader takes any bytes.  `IsCode n xs` says that `xs` is what `n` rounds
take off a stream, over-long or not, and `number xs` is what its groups add up
to; the word read is that number modulo `2 ^ w` (`read_code`).
-/

namespace Varint

variable {w : Nat}

/-- The bytes of `v`, at most `room` of them. -/
def encode : (room : Nat) → BitVec w → Option (List (BitVec 8))
  | 0, _ => none
  | room + 1, v =>
      if 0x80 ≤ v.toNat then
        (encode room (v >>> 7)).map (((v.setWidth 8 &&& 0x7F) ||| 0x80) :: ·)
      else some [v.setWidth 8]

/-- The loop `for (i = 0; i < w; i += 7)` with `rounds` rounds left: each
round reads a byte, ors its low seven bits into `ans` at bit `i`, and stops
at a byte whose top bit is clear. -/
def read {ε : Type} (next : Reader (BitVec 8) ε (BitVec 8)) :
    (rounds i : Nat) → BitVec w → Reader (BitVec 8) ε (BitVec w)
  | 0, _, ans => pure ans
  | rounds + 1, i, ans => do
      let b ← next
      if b &&& 0x80 ≠ 0 then
        read next rounds (i + 7) (ans ||| (b &&& 0x7F).setWidth w <<< i)
      else pure (ans ||| b.setWidth w <<< i)

/-- A round of the writing loop: a marked byte and the rest, or the last byte. -/
theorem encode_cases {n : Nat} {v : BitVec w} {bs : List (BitVec 8)}
    (h : encode (n + 1) v = some bs) :
    (0x80 ≤ v.toNat ∧ ∃ rest, encode n (v >>> 7) = some rest ∧
      bs = ((v.setWidth 8 &&& 0x7F) ||| 0x80) :: rest) ∨
    (v.toNat < 0x80 ∧ bs = [v.setWidth 8]) := by
  rw [encode] at h
  by_cases hv : 0x80 ≤ v.toNat
  · rw [if_pos hv, Option.map_eq_some_iff] at h
    obtain ⟨rest, hrest, rfl⟩ := h
    exact .inl ⟨hv, rest, hrest, rfl⟩
  · rw [if_neg hv, Option.some.injEq] at h
    exact .inr ⟨Nat.lt_of_not_le hv, h.symm⟩

/-! ## the array is large enough -/

theorem toNat_ushiftRight_seven (v : BitVec w) : (v >>> 7).toNat = v.toNat / 128 := by
  rw [BitVec.toNat_ushiftRight, Nat.shiftRight_eq_div_pow]

/-- Dropping the lowest group of a word of `n + 1` groups leaves `n`. -/
theorem toNat_ushiftRight_lt {n : Nat} {v : BitVec w} (h : v.toNat < 128 ^ (n + 1)) :
    (v >>> 7).toNat < 128 ^ n := by
  rw [Nat.pow_succ] at h
  rw [toNat_ushiftRight_seven]
  exact Nat.div_lt_of_lt_mul (by rwa [Nat.mul_comm])

/-- An array of `n + 1` bytes holds every word below `128 ^ (n + 1)`. -/
theorem isSome_encode {n : Nat} {v : BitVec w} (h : v.toNat < 128 ^ (n + 1)) :
    (encode (n + 1) v).isSome := by
  induction n generalizing v with
  | zero =>
      rw [encode, if_neg (by omega)]
      rfl
  | succ n ih =>
      rw [encode]
      by_cases hv : 0x80 ≤ v.toNat
      · rw [if_pos hv, Option.isSome_map]
        exact ih (toNat_ushiftRight_lt h)
      · rw [if_neg hv]
        rfl

/-! ## round trip -/

theorem top_bit (b : BitVec 8) : b &&& 0x80 ≠ 0 ↔ ¬ b.toNat < 0x80 := by
  decide +revert

/-- The top bit of a byte that another follows is set. -/
theorem more_ne_zero (b : BitVec 8) : ((b &&& 0x7F) ||| 0x80) &&& 0x80 ≠ 0 := by
  decide +revert

/-- The top bit of the last byte is clear. -/
theorem last_eq_zero {v : BitVec w} (h : v.toNat < 0x80) : v.setWidth 8 &&& 0x80 = 0 := by
  have hclear : ∀ b : BitVec 8, b.toNat < 0x80 → b &&& 0x80 = 0 := by decide
  apply hclear
  rw [BitVec.toNat_setWidth]
  omega

/-- The group of a byte that another follows is the low seven bits it was made of. -/
theorem group_eq (b : BitVec 8) : ((b &&& 0x7F) ||| 0x80) &&& 0x7F = b &&& 0x7F := by
  decide +revert

/-- A word put at bit `i` is its lowest group at bit `i` and the rest at bit `i + 7`. -/
theorem group_or_rest (v : BitVec w) (i : Nat) :
    (v.setWidth 8 &&& 0x7F).setWidth w <<< i ||| (v >>> 7) <<< (i + 7) = v <<< i := by
  have hmask : ∀ k, (0x7F : BitVec 8).getLsbD k = decide (k < 7) := by
    intro k
    by_cases hk : k < 8
    · decide +revert
    · rw [BitVec.getLsbD_of_ge _ _ (by omega), decide_eq_false (by omega)]
  apply BitVec.eq_of_getLsbD_eq
  intro j hj
  simp only [BitVec.getLsbD_or, BitVec.getLsbD_shiftLeft, BitVec.getLsbD_setWidth,
    BitVec.getLsbD_and, BitVec.getLsbD_ushiftRight, hmask]
  by_cases h1 : j < i
  · simp [h1, Nat.lt_add_right 7 h1]
  · by_cases h2 : j < i + 7
    · have hw : j - i < w := by omega
      have h7 : j - i < 7 := by omega
      have h8 : j - i < 8 := by omega
      simp [h1, h2, hj, hw, h7, h8]
    · have hsub : 7 + (j - (i + 7)) = j - i := by omega
      have h7 : ¬ j - i < 7 := by omega
      simp [h1, h2, hj, hsub, h7]

/-- A word below `0x80` is its only byte. -/
theorem setWidth_setWidth {v : BitVec w} (h : v.toNat < 0x80) : (v.setWidth 8).setWidth w = v := by
  apply BitVec.eq_of_toNat_eq
  rw [BitVec.toNat_setWidth, BitVec.toNat_setWidth, Nat.mod_eq_of_lt (a := v.toNat) (by omega),
    Nat.mod_eq_of_lt v.isLt]

/-- **Round trip**: from bit `i` on, reading the bytes of `v` ors `v` into the
accumulator at bit `i` and takes exactly these bytes. -/
theorem reads_encode {ε : Type} {next : Reader (BitVec 8) ε (BitVec 8)}
    (hnext : ∀ b, Reader.Reads next [b] b) {n : Nat} {v : BitVec w} {bs : List (BitVec 8)}
    (h : encode n v = some bs) (i : Nat) (ans : BitVec w) :
    Reader.Reads (read next n i ans) bs (ans ||| v <<< i) := by
  induction n generalizing v bs i ans with
  | zero => contradiction
  | succ n ih =>
      rw [read]
      obtain ⟨-, rest, hrest, rfl⟩ | ⟨hv, rfl⟩ := encode_cases h
      · apply (hnext _).bind
        rw [if_pos (more_ne_zero _), group_eq, ← group_or_rest v i, ← BitVec.or_assoc]
        exact ih hrest _ _
      · apply (hnext _).bind_nil
        rw [if_neg (not_not_intro (last_eq_zero hv)), setWidth_setWidth hv]
        exact Reader.Reads.pure _

/-- A number takes at least one byte, whatever the bytes are. -/
theorem takes_read {ε : Type} {next : Reader (BitVec 8) ε (BitVec 8)}
    (hnext : Reader.Takes next fun _ => 1) (n i : Nat) (ans : BitVec w) :
    Reader.Takes (read next n i ans) fun _ => min n 1 := by
  induction n generalizing i ans with
  | zero => exact (Reader.Takes.pure ans).mono fun _ => by simp
  | succ n ih =>
      have hrest : ∀ b : BitVec 8, Reader.Takes
          (if b &&& 0x80 ≠ 0 then read next n (i + 7) (ans ||| (b &&& 0x7F).setWidth w <<< i)
            else pure (ans ||| b.setWidth w <<< i)) fun _ => 0 := by
        intro b
        split
        · exact (ih _ _).mono fun _ => Nat.zero_le _
        · exact Reader.Takes.pure _
      rw [read]
      exact (hnext.bind hrest).mono fun _ => by omega

/-- The loop decides on the bytes it takes. -/
theorem scans_read {ε : Type} {E : ε → Prop} {next : Reader (BitVec 8) ε (BitVec 8)}
    (hnext : Reader.Scans E next) (n i : Nat) (ans : BitVec w) :
    Reader.Scans E (read next n i ans) := by
  induction n generalizing i ans with
  | zero => exact Reader.Scans.pure E ans
  | succ n ih =>
      rw [read]
      refine hnext.bind fun b => ?_
      split
      · exact ih _ _
      · exact Reader.Scans.pure E _

/-! ## what an encoding looks like -/

theorem encode_ne_nil {n : Nat} {v : BitVec w} {bs : List (BitVec 8)}
    (h : encode n v = some bs) : bs ≠ [] := by
  cases n with
  | zero => contradiction
  | succ n =>
      obtain ⟨-, rest, -, rfl⟩ | ⟨-, rfl⟩ := encode_cases h <;> exact List.cons_ne_nil _ _

/-- **Length**: `k` bytes are enough exactly for the words of `k` groups. -/
theorem length_le_iff {n : Nat} {v : BitVec w} {bs : List (BitVec 8)} (h : encode n v = some bs)
    {k : Nat} (hk : 0 < k) : bs.length ≤ k ↔ v.toNat < 2 ^ (7 * k) := by
  induction n generalizing v bs k with
  | zero => contradiction
  | succ n ih =>
      obtain ⟨k, rfl⟩ : ∃ j, k = j + 1 := ⟨k - 1, by omega⟩
      have hpow : 2 ^ (7 * (k + 1)) = 2 ^ (7 * k) * 128 := by rw [Nat.mul_succ, Nat.pow_add]
      obtain ⟨hv, rest, hrest, rfl⟩ | ⟨hv, rfl⟩ := encode_cases h
      · rw [List.length_cons, Nat.add_le_add_iff_right, hpow]
        rcases Nat.eq_zero_or_pos k with rfl | hk
        · have hlen := List.length_pos_iff.mpr (encode_ne_nil hrest)
          exact iff_of_false (by omega) (by omega)
        · rw [ih hrest hk, toNat_ushiftRight_seven, Nat.div_lt_iff_lt_mul (by decide)]
      · have hpos := Nat.two_pow_pos (7 * k)
        exact iff_of_true (by simp) (by omega)

/-- The top bit is set in all the bytes but the last. -/
theorem exists_marked {n : Nat} {v : BitVec w} {bs : List (BitVec 8)} (h : encode n v = some bs) :
    ∃ init last, bs = init ++ [last] ∧ (∀ b ∈ init, 0x80 ≤ b.toNat) ∧ last.toNat < 0x80 := by
  induction n generalizing v bs with
  | zero => contradiction
  | succ n ih =>
      obtain ⟨-, rest, hrest, rfl⟩ | ⟨hv, rfl⟩ := encode_cases h
      · obtain ⟨init, last, rfl, hinit, hlast⟩ := ih hrest
        refine ⟨_ :: init, last, rfl, fun b hb => ?_, hlast⟩
        rcases List.mem_cons.mp hb with rfl | hb
        · exact Nat.le_of_not_lt ((top_bit _).mp (more_ne_zero _))
        · exact hinit b hb
      · refine ⟨[], _, rfl, fun b hb => absurd hb List.not_mem_nil, ?_⟩
        rw [BitVec.toNat_setWidth]
        omega

/-! ## any bytes -/

/-- The bytes end in one with a clear top bit, or there are `n` of them. -/
def Ends (n : Nat) (xs : List (BitVec 8)) : Prop :=
  (∃ b, xs.getLast? = some b ∧ b.toNat < 0x80) ∨ xs.length = n

/-- The shortest bytes that end. -/
structure IsCode (n : Nat) (xs : List (BitVec 8)) : Prop where
  ends : Ends n xs
  shortest : ∀ k < xs.length, ¬ Ends n (xs.take k)

/-- What the low seven bits of the bytes add up to, least significant first. -/
def number (xs : List (BitVec 8)) : Nat := Nat.ofDigits (2 ^ 7) (xs.map fun b => b.toNat % 2 ^ 7)

theorem not_ends_nil (n : Nat) : ¬ Ends (n + 1) [] := by
  rintro (⟨b, hb, -⟩ | hlen)
  · cases hb
  · cases hlen

theorem isCode_zero {xs : List (BitVec 8)} : IsCode 0 xs ↔ xs = [] := by
  constructor
  · intro h
    by_contra hne
    exact h.shortest 0 (List.length_pos_iff.mpr hne) (.inr rfl)
  · rintro rfl
    exact ⟨.inr rfl, fun k hk => absurd hk (Nat.not_lt_zero k)⟩

theorem ends_cons {n : Nat} {b : BitVec 8} {xs : List (BitVec 8)} (h : ¬ b.toNat < 0x80) :
    Ends (n + 1) (b :: xs) ↔ Ends n xs := by
  unfold Ends
  rw [List.length_cons, Nat.add_right_cancel_iff]
  cases xs with
  | nil =>
      rw [List.getLast?_singleton]
      constructor
      · rintro (⟨c, hc, hlt⟩ | hlen)
        · cases hc
          exact absurd hlt h
        · exact .inr hlen
      · rintro (⟨c, hc, -⟩ | hlen)
        · cases hc
        · exact .inr hlen
  | cons x xs => rw [List.getLast?_cons_cons]

/-- A code is one byte with a clear top bit, or a byte with a set one before a
code of one byte less. -/
theorem isCode_cons {n : Nat} {b : BitVec 8} {xs : List (BitVec 8)} :
    IsCode (n + 1) (b :: xs) ↔ if b.toNat < 0x80 then xs = [] else IsCode n xs := by
  split
  · next hlt =>
      constructor
      · intro h
        by_contra hne
        have hlen := List.length_pos_iff.mpr hne
        exact h.shortest 1 (by rw [List.length_cons]; omega) (.inl ⟨b, rfl, hlt⟩)
      · rintro rfl
        refine ⟨.inl ⟨b, rfl, hlt⟩, fun k hk => ?_⟩
        obtain rfl : k = 0 := by simpa using hk
        exact not_ends_nil n
  · next hlt =>
      constructor
      · intro h
        refine ⟨(ends_cons hlt).mp h.ends, fun k hk => ?_⟩
        have hshort := h.shortest (k + 1) (by rw [List.length_cons]; omega)
        rwa [List.take_succ_cons, ends_cons hlt] at hshort
      · intro h
        refine ⟨(ends_cons hlt).mpr h.ends, fun k hk => ?_⟩
        cases k with
        | zero => exact not_ends_nil n
        | succ k =>
            rw [List.take_succ_cons, ends_cons hlt]
            exact h.shortest k (by rw [List.length_cons] at hk; omega)

theorem toNat_group (b : BitVec 8) : (b &&& 0x7F).toNat = b.toNat % 2 ^ 7 := by
  decide +revert

/-- `k` bytes have room for the bits below `7 * k` only. -/
theorem read_lt {ε : Type} {next : Reader (BitVec 8) ε (BitVec 8)}
    (hnext : Reader.Takes next fun _ => 1) {n i : Nat} {ans v : BitVec w}
    {s rest : List (BitVec 8)} (hans : ans.toNat < 2 ^ i)
    (h : read next n i ans s = .ok (v, rest)) :
    ∃ k, min n 1 ≤ k ∧ k + rest.length ≤ s.length ∧ v.toNat < 2 ^ (i + 7 * k) := by
  induction n generalizing i ans s with
  | zero =>
      cases h
      exact ⟨0, by simp, by simp, by simpa using hans⟩
  | succ n ih =>
      obtain ⟨b, s', hb, h⟩ := Reader.bind_eq_ok.mp h
      have htaken := hnext s b s' hb
      -- a group or a last byte at bit `i`
      have hor {g : BitVec 8} (hg : g.toNat < 2 ^ 7) :
          (ans ||| g.setWidth w <<< i).toNat < 2 ^ (i + 7) := by
        rw [BitVec.toNat_or]
        refine Nat.or_lt_two_pow (hans.trans (Nat.pow_lt_pow_right (by decide) (by omega))) ?_
        rw [BitVec.toNat_shiftLeft, Nat.shiftLeft_eq]
        refine (Nat.mod_le _ _).trans_lt ?_
        rw [Nat.pow_add, Nat.mul_comm]
        refine Nat.mul_lt_mul_of_pos_left ?_ (Nat.two_pow_pos i)
        rw [BitVec.toNat_setWidth]
        exact (Nat.mod_le _ _).trans_lt hg
      split at h
      · have hgroup : (b &&& 0x7F).toNat < 2 ^ 7 := by
          rw [toNat_group]
          exact Nat.mod_lt _ (by decide)
        obtain ⟨k, -, hlen, hv⟩ := ih (hor hgroup) h
        exact ⟨k + 1, by omega, by simp only at htaken; omega, by
          rwa [show i + 7 * (k + 1) = i + 7 + 7 * k by omega]⟩
      · next hlast =>
        have hlow : b.toNat < 2 ^ 7 := by
          rw [ne_eq, not_not] at hlast
          by_contra hge
          exact (top_bit b).mpr hge hlast
        cases h
        exact ⟨1, by omega, by simpa [Nat.add_comm] using htaken, hor hlow⟩

/-- **Shortest**: no code of a number has fewer bytes than the one that is
written. -/
theorem takes_encode {ε : Type} {next : Reader (BitVec 8) ε (BitVec 8)}
    (hnext : Reader.Takes next fun _ => 1) {n : Nat} (hn : 0 < n)
    {code : BitVec w → List (BitVec 8)} (hcode : ∀ v, encode n v = some (code v)) :
    Reader.Takes (read next n 0 (0 : BitVec w)) fun v => (code v).length := by
  intro s v rest h
  obtain ⟨k, hk, hlen, hv⟩ := read_lt hnext (by simp) h
  have hle : (code v).length ≤ k := (length_le_iff (hcode v) (by omega)).mpr (by simpa using hv)
  show (code v).length + rest.length ≤ s.length
  omega

/-- Putting a group under a number is oring them. -/
theorem ofNat_group_add {g : Nat} (hg : g < 2 ^ 7) (v : Nat) :
    BitVec.ofNat w (g + 2 ^ 7 * v) = BitVec.ofNat w g ||| BitVec.ofNat w v <<< 7 := by
  apply BitVec.eq_of_getLsbD_eq
  intro j hj
  rw [Nat.add_comm]
  simp only [BitVec.getLsbD_or, BitVec.getLsbD_shiftLeft, BitVec.getLsbD_ofNat,
    Nat.testBit_two_pow_mul_add v hg]
  by_cases h7 : j < 7
  · simp [h7, hj]
  · have hhigh : g.testBit j = false :=
      Nat.testBit_lt_two_pow (hg.trans_le (Nat.pow_le_pow_right (by decide) (by omega)))
    have hw : j - 7 < w := by omega
    simp [h7, hj, hw, hhigh]

section
variable {ε : Type} {next : Reader (BitVec 8) ε (BitVec 8)}

/-- **Any code** is read as its number, the groups that do not fit cut off. -/
theorem reads_code (hnext : ∀ b, Reader.Reads next [b] b) {n : Nat} {xs : List (BitVec 8)}
    (h : IsCode n xs) (i : Nat) (ans : BitVec w) :
    Reader.Reads (read next n i ans) xs (ans ||| BitVec.ofNat w (number xs) <<< i) := by
  induction n generalizing xs i ans with
  | zero =>
      rw [isCode_zero] at h
      subst h
      have hzero : ans ||| BitVec.ofNat w (number []) <<< i = ans := by
        rw [number, List.map_nil, Nat.ofDigits_nil, BitVec.zero_shiftLeft, BitVec.or_zero]
      rw [hzero]
      exact Reader.Reads.pure ans
  | succ n ih =>
      cases xs with
      | nil => exact absurd h.ends (not_ends_nil n)
      | cons b xs =>
          rw [isCode_cons] at h
          rw [read, number, List.map_cons, Nat.ofDigits_cons]
          by_cases hb : b.toNat < 0x80
          · rw [if_pos hb] at h
            subst h
            have hgroup : b.toNat % 2 ^ 7 = b.toNat := Nat.mod_eq_of_lt hb
            apply (hnext b).bind_nil
            rw [if_neg (fun hc => (top_bit b).mp hc hb), List.map_nil, Nat.ofDigits_nil,
              Nat.mul_zero, Nat.add_zero, hgroup, BitVec.ofNat_toNat]
            exact Reader.Reads.pure _
          · rw [if_neg hb] at h
            apply (hnext b).bind
            have hgroup : (b &&& 0x7F).setWidth w = BitVec.ofNat w (b.toNat % 2 ^ 7) := by
              rw [← toNat_group, BitVec.ofNat_toNat]
            rw [if_pos ((top_bit b).mpr hb), ofNat_group_add (Nat.mod_lt _ (by decide)),
              BitVec.shiftLeft_or_distrib, ← BitVec.shiftLeft_add, Nat.add_comm 7,
              ← BitVec.or_assoc, ← hgroup]
            exact ih h _ _

/-- Where the stream ends inside a code, the read fails. -/
theorem read_eq_error {e : ε} {n : Nat} {s : List (BitVec 8)}
    (h : ∀ xs, xs <+: s → ¬ IsCode n xs) (i : Nat) (ans : BitVec w) :
    read (Reader.next e) n i ans s = .error e := by
  induction n generalizing s i ans with
  | zero => exact absurd (isCode_zero.mpr rfl) (h [] List.nil_prefix)
  | succ n ih =>
      cases s with
      | nil => rfl
      | cons b s =>
          have hb : ¬ b.toNat < 0x80 := by
            intro hlt
            exact h [b] ⟨s, rfl⟩ (isCode_cons.mpr (by rw [if_pos hlt]))
          have hrest : ∀ xs, xs <+: s → ¬ IsCode n xs := by
            intro xs hxs hcode
            exact h (b :: xs) (List.cons_prefix_cons.mpr ⟨rfl, hxs⟩)
              (isCode_cons.mpr (by rwa [if_neg hb]))
          rw [read, Reader.bind_apply]
          show (if b &&& 0x80 ≠ 0 then
            read (Reader.next e) n (i + 7) (ans ||| (b &&& 0x7F).setWidth w <<< i)
            else pure (ans ||| b.setWidth w <<< i)) s = _
          rw [if_pos ((top_bit b).mpr hb)]
          exact ih hrest _ _

/-! ## the shifts -/

/-- `v << i`, which is undefined unless `i` is below the width. -/
def shl (undef : ε) (v : BitVec w) (i : Nat) : Reader (BitVec 8) ε (BitVec w) :=
  if i < w then pure (v <<< i) else throw undef

/-- The loop as it is written, with its shifts checked. -/
def loop (undef : ε) (next : Reader (BitVec 8) ε (BitVec 8)) (i : Nat) (ans : BitVec w) :
    Reader (BitVec 8) ε (BitVec w) :=
  if i < w then do
    let b ← next
    if b &&& 0x80 ≠ 0 then do
      let v ← shl undef ((b &&& 0x7F).setWidth w) i
      loop undef next (i + 7) (ans ||| v)
    else do
      let v ← shl undef (b.setWidth w) i
      pure (ans ||| v)
  else pure ans
termination_by w - i

/-- **No shift is undefined**: the loop is the one that does not check them. -/
theorem loop_eq_read (undef : ε) {n i : Nat} (hle : w ≤ i + 7 * n) (hlt : i + 7 * n < w + 7)
    (ans : BitVec w) : loop undef next i ans = read next n i ans := by
  induction n generalizing i ans with
  | zero =>
      rw [loop, if_neg (by omega)]
      rfl
  | succ n ih =>
      have hi : i < w := by omega
      rw [loop, if_pos hi, read]
      refine congrArg (next >>= ·) (funext fun b => ?_)
      split
      · rw [shl, if_pos hi, pure_bind]
        exact ih (by omega) (by omega) _
      · rw [shl, if_pos hi, pure_bind]

end

end Varint
