import XzmjxRpc.Lib.Checked
import XzmjxRpc.Net.Address.IPv6

/-!
# XzmjxRpc.Net.Address.Mask

`networkAddress`, `broadcastAddress` and `subnetMask` of `IPv4Address` and
`IPv6Address` (`net/address.cpp`), with `CreateMask`, from which they all take
their masks.

`CreateMask` computes in `int`, so it has no mask of 31 or 32 low bits
(`createMask_eq_ok`), which IPv4 asks for.  IPv6 asks for eight at most, byte
by byte, and for the whole address one byte behind it.
-/

namespace XzmjxRpc

/-! ## masks -/

/-- The word of width `w` with `n` leading ones. -/
def leadingOnes (w n : Nat) : BitVec w := BitVec.allOnes w <<< (w - n)

theorem getMsbD_leadingOnes {w n i : Nat} (hi : i < w) :
    (leadingOnes w n).getMsbD i = decide (i < n) := by
  rw [leadingOnes, BitVec.getMsbD_shiftLeft, BitVec.getMsbD_allOnes]
  exact decide_eq_decide.mpr (by omega)

/-- `CreateMask<T>(bits)`, `T` of `n` bytes: the shift and the subtraction are
those of `int`, the number of places is a `size_t`. -/
def createMask (n : Nat) (bits : BitVec 32) : Checked (BitVec (8 * n)) := do
  let places : BitVec 64 := BitVec.ofNat 64 (n * 8) - bits.setWidth 64
  let one ← Checked.shl (1 : BitVec 32) places.toNat
  let mask ← Checked.sub one 1
  pure (mask.signExtend (8 * n))

/-- The `int` with a one at place `k` is the least one for `k = 31`, from which
nothing can be taken. -/
theorem sub_shl_one_eq_ok {k : Nat} (hk : k < 32) {m : BitVec 32} :
    Checked.sub ((1 : BitVec 32) <<< k) 1 = .ok m ↔ k < 31 ∧ m = BitVec.ofNat 32 (2 ^ k - 1) := by
  have hall : ∀ k : Fin 32,
      ((-2 ^ (32 - 1) ≤ ((1 : BitVec 32) <<< k.val).toInt - (1 : BitVec 32).toInt ∧
        ((1 : BitVec 32) <<< k.val).toInt - (1 : BitVec 32).toInt < 2 ^ (32 - 1)) ↔ k.val < 31) ∧
      (1 : BitVec 32) <<< k.val - 1 = BitVec.ofNat 32 (2 ^ k.val - 1) := by
    decide
  obtain ⟨hfits, hval⟩ := hall ⟨k, hk⟩
  rw [Checked.sub_eq_ok, hfits, hval]

/-- The number of places is what the bits leave of the width, or wraps around. -/
theorem toNat_places {n : Nat} (hn : n ≤ 4) (bits : BitVec 32) :
    (BitVec.ofNat 64 (n * 8) - bits.setWidth 64).toNat =
      if bits.toNat ≤ 8 * n then 8 * n - bits.toNat else 2 ^ 64 + 8 * n - bits.toNat := by
  have hlt := bits.isLt
  rw [BitVec.toNat_sub, BitVec.toNat_ofNat, BitVec.toNat_setWidth_of_le (by decide)]
  split <;> omega

/-- The low ones of an `int` are all but the leading ones of a narrower type. -/
theorem signExtend_ones {w k : Nat} (hw : w ≤ 32) (hk : k ≤ w) :
    (BitVec.ofNat 32 (2 ^ k - 1)).signExtend w = ~~~leadingOnes w (w - k) := by
  apply BitVec.eq_of_getLsbD_eq
  intro i hi
  have hint : i < 32 := by omega
  rw [BitVec.signExtend_eq_setWidth_of_le _ hw, BitVec.getLsbD_setWidth, BitVec.getLsbD_ofNat,
    Nat.testBit_two_pow_sub_one, leadingOnes, BitVec.getLsbD_not, BitVec.getLsbD_shiftLeft,
    BitVec.getLsbD_allOnes, decide_eq_true hi, decide_eq_true hint, Bool.true_and, Bool.true_and,
    Bool.true_and]
  by_cases hlow : i < k
  · simp [hlow, show i < w - (w - k) by omega]
  · simp [hlow, show ¬ i < w - (w - k) by omega, show i - (w - (w - k)) < w by omega]

/-- **`CreateMask`** is defined when it leaves fewer than 31 low bits, and
then it is those. -/
theorem createMask_eq_ok {n : Nat} (hn : n ≤ 4) {bits : BitVec 32} {m : BitVec (8 * n)} :
    createMask n bits = .ok m ↔
      (bits.toNat ≤ 8 * n ∧ 8 * n < bits.toNat + 31) ∧ m = ~~~leadingOnes (8 * n) bits.toNat := by
  unfold createMask
  simp only [Checked.bind_eq_ok, Checked.shl_eq_ok, Checked.pure_eq_ok, toNat_places hn]
  have hlt := bits.isLt
  by_cases hbits : bits.toNat ≤ 8 * n
  · rw [if_pos hbits]
    have hval : (BitVec.ofNat 32 (2 ^ (8 * n - bits.toNat) - 1)).signExtend (8 * n) =
        ~~~leadingOnes (8 * n) bits.toNat := by
      rw [signExtend_ones (by omega) (by omega), Nat.sub_sub_self hbits]
    constructor
    · rintro ⟨_, ⟨hplaces, rfl⟩, mask, hmask, rfl⟩
      obtain ⟨hfew, rfl⟩ := (sub_shl_one_eq_ok hplaces).mp hmask
      exact ⟨⟨hbits, by omega⟩, hval⟩
    · rintro ⟨⟨-, hfew⟩, rfl⟩
      exact ⟨_, ⟨by omega, rfl⟩, _, (sub_shl_one_eq_ok (by omega)).mpr ⟨by omega, rfl⟩, hval.symm⟩
  · rw [if_neg hbits]
    constructor
    · rintro ⟨_, ⟨hplaces, -⟩, -⟩
      omega
    · rintro ⟨⟨hle, -⟩, -⟩
      exact absurd hle hbits

/-! ## IPv4 -/

namespace IPv4Address

section
variable [Machine]

/-- `broadcastAddress(prefix_len)`; `none` is `nullptr`. -/
def broadcastAddress (a : IPv4Address) (prefixLen : BitVec 32) : Checked (Option IPv4Address) :=
  if prefixLen > 32 then pure none
  else do
    let ipv4Mask ← createMask 4 prefixLen
    pure (some { a with sinAddr := a.sinAddr ||| endianCastByType (n := 4) ipv4Mask .big })

/-- `networkAddress(prefix_len)`; `none` is `nullptr`. -/
def networkAddress (a : IPv4Address) (prefixLen : BitVec 32) : Checked (Option IPv4Address) :=
  if prefixLen > 32 then pure none
  else do
    let ipv4Mask ← createMask 4 prefixLen
    pure (some { a with sinAddr := a.sinAddr &&& ~~~endianCastByType (n := 4) ipv4Mask .big })

/-- `subnetMask(prefix_len)`. -/
def subnetMask (prefixLen : BitVec 32) : Checked IPv4Address := do
  let ipv4Mask ← createMask 4 prefixLen
  pure { sinAddr := ~~~endianCastByType (n := 4) ipv4Mask .big, sinPort := 0 }

/-- The address as a number. -/
def addr (a : IPv4Address) : BitVec 32 := endianCastByType (n := 4) a.sinAddr .big

/-- The three functions do at `prefixLen` what they are for, and `CreateMask`
takes no step that is not defined. -/
structure CutsAt (a : IPv4Address) (prefixLen : BitVec 32) : Prop where
  mask : ∃ m, createMask 4 prefixLen = .ok m
  network : ∃ b, a.networkAddress prefixLen = .ok (some b) ∧
    b.addr = a.addr &&& leadingOnes 32 prefixLen.toNat
  broadcast : ∃ b, a.broadcastAddress prefixLen = .ok (some b) ∧
    b.addr = a.addr ||| ~~~leadingOnes 32 prefixLen.toNat
  subnet : ∃ b, subnetMask prefixLen = .ok b ∧ b.addr = leadingOnes 32 prefixLen.toNat

/-- **IPv4**: of the prefix lengths that are let through, those from 2 on. -/
theorem cutsAt_iff_two_le (a : IPv4Address) (prefixLen : BitVec 32) :
    a.CutsAt prefixLen ↔ 2 ≤ prefixLen.toNat ∧ prefixLen.toNat ≤ 32 := by
  constructor
  · intro h
    obtain ⟨m, hm⟩ := h.mask
    have hbits := (createMask_eq_ok (by decide)).mp hm
    omega
  · rintro ⟨htwo, hle⟩
    have hmask : createMask 4 prefixLen = .ok (~~~leadingOnes 32 prefixLen.toNat) :=
      (createMask_eq_ok (by decide)).mpr ⟨by omega, rfl⟩
    have hlet : ¬ prefixLen > 32 := by
      rw [gt_iff_lt, BitVec.lt_def]
      exact Nat.not_lt.mpr hle
    refine ⟨⟨_, hmask⟩, ?network, ?broadcast, ?subnet⟩
    case network =>
      refine ⟨_, by rw [networkAddress, if_neg hlet, hmask]; rfl, ?_⟩
      show endianCastByType (n := 4) (_ &&& ~~~endianCastByType (n := 4) _ _) _ = _
      rw [endianCastByType_and, endianCastByType_not, endianCastByType_endianCastByType,
        BitVec.not_not]
      rfl
    case broadcast =>
      refine ⟨_, by rw [broadcastAddress, if_neg hlet, hmask]; rfl, ?_⟩
      show endianCastByType (n := 4) (_ ||| endianCastByType (n := 4) _ _) _ = _
      rw [endianCastByType_or, endianCastByType_endianCastByType]
      rfl
    case subnet =>
      refine ⟨_, by rw [subnetMask, hmask]; rfl, ?_⟩
      show endianCastByType (n := 4) (~~~endianCastByType (n := 4) _ _) _ = _
      rw [endianCastByType_not, endianCastByType_endianCastByType, BitVec.not_not]

end

/-- `CreateMask` shifts by 32 for the empty prefix, and takes 1 from the least
`int` for the prefix of one bit. -/
theorem not_cutsAt_zero : letI := x86_64
    ¬ (ofHost 0xc0a8014d 9999).CutsAt 0 ∧ ¬ (ofHost 0xc0a8014d 9999).CutsAt 1 ∧
      createMask 4 0 = .error .shift ∧ createMask 4 1 = .error .overflow := by
  have hzero : createMask 4 0 = .error .shift := by decide
  have hone : createMask 4 1 = .error .overflow := by decide
  exact ⟨fun h => Checked.not_ok hzero (@CutsAt.mask x86_64 _ _ h),
    fun h => Checked.not_ok hone (@CutsAt.mask x86_64 _ _ h), hzero, hone⟩

end IPv4Address

/-! ## IPv6 -/

namespace IPv6Address

/-- The array `s6_addr`. -/
def s6 (a : IPv6Address) : Vector Byte 16 := ⟨a.s6Addr.toArray, a.length_s6Addr⟩

/-- `IPv6Address(address)`, with these bytes and this port. -/
def ofS6 (s6 : Vector Byte 16) (sin6Port : BitVec 16) : IPv6Address where
  s6Addr := s6.toList
  sin6Port := sin6Port
  length_s6Addr := Vector.length_toList

/-- `broadcastAddress(prefix_len)`. -/
def broadcastAddress (a : IPv6Address) (prefixLen : BitVec 32) : Checked IPv6Address := do
  let mask ← createMask 1 (prefixLen % 8)
  let byte ← Checked.load a.s6 (prefixLen / 8).toNat
  let s6 ← Checked.store a.s6 (prefixLen / 8).toNat (byte ||| mask)
  let s6 ← Checked.fill s6 ((prefixLen / 8).toNat + 1) 16 0xff
  pure (ofS6 s6 a.sin6Port)

/-- `networkAddress(prefix_len)`. -/
def networkAddress (a : IPv6Address) (prefixLen : BitVec 32) : Checked IPv6Address := do
  let mask ← createMask 1 (prefixLen % 8)
  let byte ← Checked.load a.s6 (prefixLen / 8).toNat
  let s6 ← Checked.store a.s6 (prefixLen / 8).toNat (byte &&& ~~~mask)
  let s6 ← Checked.fill s6 ((prefixLen / 8).toNat + 1) 16 0
  pure (ofS6 s6 a.sin6Port)

/-- `subnetMask(prefix_len)`. -/
def subnetMask (prefixLen : BitVec 32) : Checked IPv6Address := do
  let mask ← createMask 1 (prefixLen % 8)
  let s6 ← Checked.store (Vector.replicate 16 0) (prefixLen / 8).toNat (~~~mask)
  let s6 ← Checked.fill s6 0 (prefixLen / 8).toNat 0xff
  pure (ofS6 s6 0)

/-- Bit `i` of the address, the most significant one first. -/
def bit (a : IPv6Address) (i : Nat) : Bool := (a.s6Addr.getD (i / 8) 0).getMsbD (i % 8)

/-- The three functions do at `prefixLen` what they are for, inside the
sixteen bytes of the address. -/
structure CutsAt (a : IPv6Address) (prefixLen : BitVec 32) : Prop where
  network : ∃ b, a.networkAddress prefixLen = .ok b ∧
    ∀ i < 128, b.bit i = if i < prefixLen.toNat then a.bit i else false
  broadcast : ∃ b, a.broadcastAddress prefixLen = .ok b ∧
    ∀ i < 128, b.bit i = if i < prefixLen.toNat then a.bit i else true
  subnet : ∃ b, subnetMask prefixLen = .ok b ∧
    ∀ i < 128, b.bit i = decide (i < prefixLen.toNat)

theorem bit_ofS6 (s6 : Vector Byte 16) (port : BitVec 16) {i : Nat} (hi : i < 128) :
    (ofS6 s6 port).bit i = (s6[i / 8]).getMsbD (i % 8) := by
  have hbyte : s6.toList.getD (i / 8) 0 = s6[i / 8] := by
    rw [List.getD_eq_getElem?_getD, Vector.getElem?_toList, Vector.getElem?_eq_getElem (by omega)]
    rfl
  rw [bit, ofS6, hbyte]

theorem bit_eq (a : IPv6Address) {i : Nat} (hi : i < 128) :
    a.bit i = (a.s6[i / 8]).getMsbD (i % 8) := bit_ofS6 a.s6 a.sin6Port hi

/-- The partial byte's mask is always defined. -/
theorem createMask_mod (prefixLen : BitVec 32) :
    createMask 1 (prefixLen % 8) = .ok (~~~leadingOnes 8 (prefixLen.toNat % 8)) := by
  have hmod : (prefixLen % 8).toNat = prefixLen.toNat % 8 := BitVec.toNat_umod
  rw [← hmod]
  exact (createMask_eq_ok (by decide)).mpr ⟨by omega, rfl⟩

/-- A byte of the mask before the one that is cut, the cut one, and one after it. -/
theorem leadingOnes_byte (n j : Nat) :
    leadingOnes 8 (n - 8 * j) =
      if j < n / 8 then BitVec.allOnes 8 else if j = n / 8 then leadingOnes 8 (n % 8) else 0 := by
  by_cases hlt : j < n / 8
  · rw [if_pos hlt, leadingOnes, Nat.sub_eq_zero_of_le (by omega), BitVec.shiftLeft_zero]
  · rw [if_neg hlt]
    by_cases heq : j = n / 8
    · have hmod : n - 8 * j = n % 8 := by omega
      rw [if_pos heq, hmod]
    · have hzero : n - 8 * j = 0 := by omega
      rw [if_neg heq, hzero]
      rfl

/-- One byte is combined with a part of the mask, and those behind it are filled
as if they were combined with the rest of it. -/
theorem cut_eq_ok (v : Vector Byte 16) {f : Byte → Byte → Byte} {y : Byte}
    (hones : ∀ b, f b (BitVec.allOnes 8) = b) (hzero : ∀ b, f b 0 = y) {n : Nat} (h : n < 128) :
    (do let byte ← Checked.load v (n / 8)
        let s6 ← Checked.store v (n / 8) (f byte (leadingOnes 8 (n % 8)))
        Checked.fill s6 (n / 8 + 1) 16 y) =
      .ok (Vector.ofFn fun j : Fin 16 => f v[j.val] (leadingOnes 8 (n - 8 * j.val))) := by
  have hk : n / 8 < 16 := by omega
  rw [Checked.load_eq_ok hk]
  show (Checked.store _ _ _ >>= _) = _
  rw [Checked.store_eq_ok hk]
  show Checked.fill _ _ _ _ = _
  rw [Checked.fill_eq_ok _ _ (Nat.le_refl _)]
  congr 2
  ext1 j
  have hj := j.isLt
  rw [Vector.getElem_set, leadingOnes_byte]
  rcases Nat.lt_trichotomy j.val (n / 8) with hlt | heq | hgt
  · rw [if_neg (by omega), if_neg (by omega), if_pos hlt, hones]
  · rw [if_neg (by omega), if_pos heq.symm, if_neg (by omega), if_pos heq]
    simp only [heq]
  · rw [if_pos (by omega), if_neg (by omega), if_neg (by omega), hzero]

/-- `networkAddress` masks every byte. -/
theorem networkAddress_eq_ok (a : IPv6Address) {prefixLen : BitVec 32}
    (h : prefixLen.toNat < 128) :
    a.networkAddress prefixLen = .ok (ofS6 (Vector.ofFn fun j : Fin 16 =>
      a.s6[j.val] &&& leadingOnes 8 (prefixLen.toNat - 8 * j.val)) a.sin6Port) := by
  have hdiv : (prefixLen / 8).toNat = prefixLen.toNat / 8 := BitVec.toNat_udiv
  have hcut := congrArg (fun m => m >>= fun s6 => pure (ofS6 s6 a.sin6Port))
    (cut_eq_ok a.s6 (f := fun b m => b &&& m) (y := 0) (fun _ => BitVec.and_allOnes)
      (fun _ => BitVec.and_zero) h)
  simp only [bind_assoc] at hcut
  rw [networkAddress, createMask_mod, hdiv]
  show (Checked.load _ _ >>= fun byte => Checked.store _ _ (byte &&& (~~~~~~_ : Byte)) >>= _) = _
  simp only [BitVec.not_not]
  exact hcut

/-- `broadcastAddress` sets the bits behind the mask in every byte. -/
theorem broadcastAddress_eq_ok (a : IPv6Address) {prefixLen : BitVec 32}
    (h : prefixLen.toNat < 128) :
    a.broadcastAddress prefixLen = .ok (ofS6 (Vector.ofFn fun j : Fin 16 =>
      a.s6[j.val] ||| ~~~leadingOnes 8 (prefixLen.toNat - 8 * j.val)) a.sin6Port) := by
  have hdiv : (prefixLen / 8).toNat = prefixLen.toNat / 8 := BitVec.toNat_udiv
  have hcut := congrArg (fun m => m >>= fun s6 => pure (ofS6 s6 a.sin6Port))
    (cut_eq_ok a.s6 (f := fun b m => b ||| ~~~m) (y := 0xff)
      (fun b => by rw [BitVec.not_allOnes, BitVec.or_zero]) (fun _ => BitVec.or_allOnes) h)
  simp only [bind_assoc] at hcut
  rw [broadcastAddress, createMask_mod, hdiv]
  exact hcut

/-- `subnetMask` is the mask in every byte. -/
theorem subnetMask_eq_ok {prefixLen : BitVec 32} (h : prefixLen.toNat < 128) :
    subnetMask prefixLen = .ok (ofS6 (Vector.ofFn fun j : Fin 16 =>
      leadingOnes 8 (prefixLen.toNat - 8 * j.val)) 0) := by
  have hdiv : (prefixLen / 8).toNat = prefixLen.toNat / 8 := BitVec.toNat_udiv
  have hk : prefixLen.toNat / 8 < 16 := by omega
  rw [subnetMask, createMask_mod, hdiv]
  show (Checked.store _ _ _ >>= _) = _
  rw [Checked.store_eq_ok hk]
  show (Checked.fill _ _ _ _ >>= _) = _
  rw [Checked.fill_eq_ok _ _ (by omega)]
  show Except.ok (ofS6 (Vector.ofFn _) _) = _
  congr 3
  ext1 j
  rw [leadingOnes_byte, Vector.getElem_set, BitVec.not_not]
  rcases Nat.lt_trichotomy j.val (prefixLen.toNat / 8) with hlt | heq | hgt
  · rw [if_pos ⟨Nat.zero_le _, hlt⟩, if_pos hlt]
    rfl
  · rw [if_neg (by omega), if_pos heq.symm, if_neg (by omega), if_pos heq]
  · rw [if_neg (by omega), if_neg (by omega), if_neg (by omega), if_neg (by omega),
      Vector.getElem_replicate]

/-- **IPv6**: of all prefix lengths, those below 128. -/
theorem cutsAt_iff_lt (a : IPv6Address) (prefixLen : BitVec 32) :
    a.CutsAt prefixLen ↔ prefixLen.toNat < 128 := by
  have hdiv : (prefixLen / 8).toNat = prefixLen.toNat / 8 := BitVec.toNat_udiv
  have hbit : ∀ i, (leadingOnes 8 (prefixLen.toNat - 8 * (i / 8))).getMsbD (i % 8) =
      decide (i < prefixLen.toNat) := by
    intro i
    rw [getMsbD_leadingOnes (by omega)]
    exact decide_eq_decide.mpr (by omega)
  constructor
  · intro h
    obtain ⟨b, hb, -⟩ := h.network
    by_contra hlt
    rw [networkAddress, createMask_mod, hdiv, Checked.load_eq_error (by omega)] at hb
    cases hb
  · intro hlt
    refine ⟨⟨_, a.networkAddress_eq_ok hlt, ?network⟩,
      ⟨_, a.broadcastAddress_eq_ok hlt, ?broadcast⟩, ⟨_, subnetMask_eq_ok hlt, ?subnet⟩⟩
    case network =>
      intro i hi
      rw [bit_ofS6 _ _ hi, Vector.getElem_ofFn, BitVec.getMsbD_and, hbit, ← a.bit_eq hi]
      by_cases hin : i < prefixLen.toNat
      · simp [hin]
      · simp [hin]
    case broadcast =>
      intro i hi
      rw [bit_ofS6 _ _ hi, Vector.getElem_ofFn, BitVec.getMsbD_or, BitVec.getMsbD_not, hbit,
        ← a.bit_eq hi, decide_eq_true (Nat.mod_lt i (by decide))]
      by_cases hin : i < prefixLen.toNat
      · simp [hin]
      · simp [hin]
    case subnet =>
      intro i hi
      rw [bit_ofS6 _ _ hi, Vector.getElem_ofFn, hbit]

/-- The mask of the whole address is written behind it. -/
theorem not_cutsAt_whole :
    ¬ (ofS6 (Vector.replicate 16 0x20) 0).CutsAt 128 ∧
      (ofS6 (Vector.replicate 16 0x20) 0).networkAddress 128 = .error .access ∧
      (ofS6 (Vector.replicate 16 0x20) 0).broadcastAddress 128 = .error .access ∧
      subnetMask 128 = .error .access := by
  have hnetwork : (ofS6 (Vector.replicate 16 0x20) 0).networkAddress 128 = .error .access := by
    decide
  refine ⟨fun h => ?_, hnetwork, by decide, by decide⟩
  obtain ⟨b, hb, -⟩ := h.network
  rw [hnetwork] at hb
  cases hb

end IPv6Address

end XzmjxRpc
