import XzmjxRpc.Lib.IPv6Text
import XzmjxRpc.Net.Address

/-!
# XzmjxRpc.Net.Address.IPv6

`IPv6Address` (`net/address.h`, `net/address.cpp`) and its text.

`insert` prints in one pass, leaving out zero groups until it has printed a
`"::"` for some.  `Printed gs p` says what the printer holds after the groups
`gs`: those before a run of zeros, and, from the first group after a run on, a
`"::"` and every group since.  So what is printed spells the address, wherever
its zeros stand (`toString_denotes`).
-/

namespace XzmjxRpc

open IPv6Text (colon openBracket closeBracket groups)

/-- What `<<` prints for an unsigned number after `std::hex`. -/
def hexadecimal (n : Nat) : Bytes := (Nat.toDigits 16 n).map fun c => BitVec.ofNat 8 c.toNat

/-- `m_address` of an `IPv6Address`: `sin6_addr.s6_addr` and `sin6_port`. -/
@[ext] structure IPv6Address where
  s6Addr : Bytes
  sin6Port : BitVec 16
  /-- `uint8_t s6_addr[16]`. -/
  length_s6Addr : s6Addr.length = 16
  deriving DecidableEq

namespace IPv6Address

/-- The stream and `used_zero`. -/
structure Printer where
  out : Bytes
  usedZero : Bool := false

section
variable [Machine]

/-- `addr[i]` of `uint16_t *addr = (uint16_t *)m_address.sin6_addr.s6_addr`. -/
def addr (a : IPv6Address) (i : Nat) : BitVec 16 :=
  Machine.native.value 2 ((a.s6Addr.drop (2 * i)).take 2)

/-- `getPort()`. -/
def getPort (a : IPv6Address) : BitVec 32 :=
  (endianCastByType (n := 2) a.sin6Port .big).setWidth 32

/-- A round of the loop in `insert`. -/
def insertGroup (a : IPv6Address) (p : Printer) (i : Nat) : Printer :=
  if a.addr i = 0 ∧ ¬ p.usedZero then p
  else
    let p := if i ≠ 0 ∧ a.addr (i - 1) = 0 ∧ ¬ p.usedZero then
      { out := p.out ++ [colon], usedZero := true } else p
    let p := if i ≠ 0 then { p with out := p.out ++ [colon] } else p
    { p with out := p.out ++ hexadecimal (endianCastByType (n := 2) (a.addr i) .big).toNat }

/-- `insert(out)`, whose text `toString()` returns. -/
def toString (a : IPv6Address) : Bytes :=
  let p := (List.range 8).foldl a.insertGroup { out := [openBracket] }
  let p := if ¬ p.usedZero ∧ a.addr 7 = 0 then { p with out := p.out ++ [colon, colon] } else p
  p.out ++ [closeBracket, colon] ++ decimal (endianCastByType (n := 2) a.sin6Port .big).toNat

end

/-! ## the groups -/

/-- Group number `i` of the address. -/
def group (a : IPv6Address) (i : Nat) : BitVec 16 :=
  Endian.big.value 2 ((a.s6Addr.drop (2 * i)).take 2)

theorem length_pair (a : IPv6Address) {i : Nat} (h : i < 8) :
    ((a.s6Addr.drop (2 * i)).take 2).length = 2 := by
  rw [List.length_take, List.length_drop, a.length_s6Addr]
  omega

/-- The groups are the bytes, in pairs. -/
theorem bytes_groups (a : IPv6Address) :
    ((List.range 8).map a.group).flatMap (Endian.big.bytes (n := 2)) = a.s6Addr := by
  have hfront : ∀ n ≤ 8, ((List.range n).map a.group).flatMap (Endian.big.bytes (n := 2)) =
      a.s6Addr.take (2 * n) := by
    intro n
    induction n with
    | zero => intro _; rfl
    | succ n ih =>
        intro hn
        have hpair : Endian.big.bytes (n := 2) (a.group n) = (a.s6Addr.drop (2 * n)).take 2 :=
          Endian.bytes_value .big (a.length_pair hn)
        rw [List.range_succ, List.map_append, List.flatMap_append, ih (by omega),
          List.map_singleton, List.flatMap_singleton, hpair, ← List.take_add, Nat.mul_succ]
  rw [hfront 8 (Nat.le_refl 8), List.take_of_length_le (Nat.le_of_eq a.length_s6Addr)]

/-- The last of the groups so far. -/
theorem getLast?_groups (a : IPv6Address) {i : Nat} (h : i ≠ 0) :
    ((List.range i).map a.group).getLast? = some (a.group (i - 1)) := by
  obtain ⟨i, rfl⟩ := Nat.exists_eq_succ_of_ne_zero h
  rw [List.range_succ, List.map_append, List.map_singleton, List.getLast?_concat]
  rfl

/-- What the printer holds after these groups. -/
inductive Printed : List (BitVec 16) → Printer → Prop where
  /-- No `"::"` yet: the zeros so far are left out. -/
  | skipping {l : List (BitVec 16)} {k : Nat} : (∀ g ∈ l, g ≠ 0) →
      Printed (l ++ List.replicate k 0) { out := openBracket :: groups l }
  /-- The `"::"` stands for the first run of zeros. -/
  | used {l r : List (BitVec 16)} {k : Nat} : r ≠ [] →
      Printed (l ++ List.replicate (k + 1) 0 ++ r)
        { out := openBracket :: groups l ++ [colon, colon] ++ groups r, usedZero := true }

/-- Without a zero so far, every group is printed. -/
theorem Printed.all {l : List (BitVec 16)} (hl : ∀ g ∈ l, g ≠ 0) :
    Printed l { out := openBracket :: groups l } := by
  have h := Printed.skipping (k := 0) hl
  rwa [List.replicate_zero, List.append_nil] at h

section
variable [Machine]

/-- On every machine the cast gives the group. -/
theorem cast_addr (a : IPv6Address) {i : Nat} (h : i < 8) :
    endianCastByType (n := 2) (a.addr i) .big = a.group i :=
  endianCastByType_value .big (a.length_pair h)

/-- The zero groups need no cast. -/
theorem addr_eq_zero (a : IPv6Address) {i : Nat} (h : i < 8) : a.addr i = 0 ↔ a.group i = 0 := by
  have hzero : endianCastByType (n := 2) 0 .big = 0 := by
    unfold endianCastByType
    split
    · rfl
    · decide
  rw [← a.cast_addr h]
  constructor
  · intro hi
    rw [hi, hzero]
  · intro hi
    rw [← endianCastByType_endianCastByType (n := 2) (a.addr i) .big, hi, hzero]

theorem toNat_getPort (a : IPv6Address) :
    a.getPort.toNat = (endianCastByType (n := 2) a.sin6Port .big).toNat :=
  BitVec.toNat_setWidth_of_le (by decide)

/-- A port has 16 bits. -/
theorem getPort_lt (a : IPv6Address) : a.getPort.toNat < 2 ^ 16 := by
  rw [toNat_getPort]
  exact (endianCastByType (n := 2) a.sin6Port .big).isLt

/-- The port determines the member it is kept in. -/
theorem sin6Port_eq {a b : IPv6Address} (h : a.getPort.toNat = b.getPort.toNat) :
    a.sin6Port = b.sin6Port := by
  rw [toNat_getPort, toNat_getPort] at h
  have hcast := BitVec.eq_of_toNat_eq h
  rw [← endianCastByType_endianCastByType (n := 2) a.sin6Port .big, hcast,
    endianCastByType_endianCastByType]

/-! ## the printer -/

/-- A round on a group that is printed, by what stands before it. -/
theorem insertGroup_of_ne_zero (a : IPv6Address) {i : Nat} (hi : i < 8) (p : Printer)
    (h : a.group i ≠ 0 ∨ p.usedZero = true) :
    a.insertGroup p i =
      if i = 0 then { p with out := p.out ++ IPv6Text.group (a.group i) }
      else if a.group (i - 1) = 0 ∧ p.usedZero = false then
        { out := p.out ++ [colon, colon] ++ IPv6Text.group (a.group i), usedZero := true }
      else { p with out := p.out ++ colon :: IPv6Text.group (a.group i) } := by
  have hprinted : ¬ (a.addr i = 0 ∧ ¬ p.usedZero = true) := by
    rw [a.addr_eq_zero hi]
    tauto
  have hexa : hexadecimal (a.group i).toNat = IPv6Text.group (a.group i) := rfl
  rw [insertGroup, if_neg hprinted, a.cast_addr hi, hexa]
  by_cases h0 : i = 0
  · simp [h0]
  · have hprev : a.addr (i - 1) = 0 ↔ a.group (i - 1) = 0 := a.addr_eq_zero (by omega)
    simp only [ne_eq, h0, not_false_eq_true, true_and, if_true, if_false, hprev, Bool.not_eq_true]
    split <;> simp

/-- A round on a zero group that is left out. -/
theorem insertGroup_of_eq_zero (a : IPv6Address) {i : Nat} (hi : i < 8) (h : a.group i = 0)
    (out : Bytes) : a.insertGroup { out := out } i = { out := out } := by
  rw [insertGroup, if_pos ⟨(a.addr_eq_zero hi).mpr h, by simp⟩]

/-- One round. -/
theorem printed_insertGroup (a : IPv6Address) {i : Nat} (hi : i < 8) {p : Printer}
    (h : Printed ((List.range i).map a.group) p) :
    Printed ((List.range (i + 1)).map a.group) (a.insertGroup p i) := by
  have hlast := a.getLast?_groups (i := i)
  have hnil : (List.range i).map a.group = [] ↔ i = 0 := by simp
  rw [List.range_succ, List.map_append, List.map_singleton]
  generalize (List.range i).map a.group = gs at h hlast hnil
  cases h with
  | @skipping l k hl =>
      by_cases hz : a.group i = 0
      · rw [a.insertGroup_of_eq_zero hi hz, hz, List.append_assoc, ← List.replicate_succ']
        exact .skipping hl
      · rw [a.insertGroup_of_ne_zero hi _ (.inl hz)]
        cases k with
        | zero =>
            -- the group before is printed, if there is one
            rw [List.replicate_zero, List.append_nil] at hlast hnil ⊢
            have hprinted : Printed (l ++ [a.group i]) _ := .all fun g hg => by
              rcases List.mem_append.mp hg with hg | hg
              · exact hl g hg
              · exact List.mem_singleton.mp hg ▸ hz
            by_cases h0 : i = 0
            · rw [hnil.mpr h0, List.nil_append, IPv6Text.groups_singleton] at hprinted
              rw [if_pos h0, hnil.mpr h0]
              exact hprinted
            · have hne : a.group (i - 1) ≠ 0 := hl _ (List.mem_of_getLast? (hlast h0))
              rw [if_neg h0, if_neg fun h => hne h.1]
              rw [IPv6Text.groups_concat (mt hnil.mp h0)] at hprinted
              exact hprinted
        | succ k =>
            have h0 : i ≠ 0 := fun h0 => by simpa using hnil.mpr h0
            have hlast0 : a.group (i - 1) = 0 := by
              have h := hlast h0
              rw [List.replicate_succ', ← List.append_assoc, List.getLast?_concat] at h
              exact (Option.some.inj h).symm
            rw [if_neg h0, if_pos ⟨hlast0, rfl⟩, ← IPv6Text.groups_singleton]
            exact .used (by simp)
  | @used l r k hr =>
      have hi0 : i ≠ 0 := fun h0 => by simpa [hr] using hnil.mpr h0
      rw [a.insertGroup_of_ne_zero hi _ (.inr rfl), if_neg hi0, if_neg (by simp)]
      have hback : openBracket :: groups l ++ [colon, colon] ++ groups r ++
          colon :: IPv6Text.group (a.group i) =
          openBracket :: groups l ++ [colon, colon] ++ groups (r ++ [a.group i]) := by
        rw [IPv6Text.groups_concat hr, List.append_assoc]
      rw [List.append_assoc]
      simp only [hback]
      exact .used (by simp)

/-- The whole loop. -/
theorem printed_loop (a : IPv6Address) {n : Nat} (hn : n ≤ 8) :
    Printed ((List.range n).map a.group)
      ((List.range n).foldl a.insertGroup { out := [openBracket] }) := by
  induction n with
  | zero => exact .all fun g hg => absurd hg List.not_mem_nil
  | succ n ih =>
      have hstep := a.printed_insertGroup hn (ih (by omega))
      rwa [List.range_succ, List.foldl_append, ← List.range_succ]

/-- What is printed between the brackets spells the groups. -/
theorem spells_toString (a : IPv6Address) :
    ∃ t, IPv6Text.Spells t ((List.range 8).map a.group) ∧
      a.toString = openBracket :: t ++ [closeBracket, colon] ++ decimal a.getPort.toNat := by
  have hprinted := a.printed_loop (Nat.le_refl 8)
  have hlast := a.getLast?_groups (i := 8) (by decide)
  have hlen : ((List.range 8).map a.group).length = 8 := by simp
  rw [toString, ← toNat_getPort]
  generalize (List.range 8).map a.group = gs at hprinted hlast hlen
  generalize (List.range 8).foldl a.insertGroup { out := [openBracket] } = p at hprinted
  cases hprinted with
  | @skipping l k hl =>
      cases k with
      | zero =>
          rw [List.replicate_zero, List.append_nil] at hlast hlen ⊢
          have hne : a.addr 7 ≠ 0 :=
            mt (a.addr_eq_zero (by decide)).mp (hl _ (List.mem_of_getLast? hlast))
          exact ⟨_, .full hlen, by rw [if_neg fun h => hne h.2]⟩
      | succ k =>
          have hzero : a.addr 7 = 0 := by
            rw [List.replicate_succ', ← List.append_assoc, List.getLast?_concat] at hlast
            exact (a.addr_eq_zero (by decide)).mpr (Option.some.inj hlast).symm
          have hspells := IPv6Text.Spells.short (l := l) (r := []) (k := k) (by simpa using hlen)
          rw [IPv6Text.groups_nil, List.append_nil, List.append_nil] at hspells
          exact ⟨_, hspells, by simp [hzero]⟩
  | @used l r k hr =>
      have hrun : l.length + (k + 1) + r.length = 8 := by simpa [Nat.add_assoc] using hlen
      exact ⟨_, .short hrun, by simp⟩

/-- **Any address**: the text that is printed is read as the address's sixteen
bytes and its port, and two addresses with the same text are equal. -/
theorem toString_denotes :
    (∀ a : IPv6Address, ∃ gs, IPv6Text.readEndpoint a.toString = some (gs, a.getPort.toNat) ∧
      gs.flatMap (Endian.big.bytes (n := 2)) = a.s6Addr) ∧
    Function.Injective (toString : IPv6Address → Bytes) := by
  have hdenotes : ∀ a : IPv6Address, IPv6Text.readEndpoint a.toString =
      some ((List.range 8).map a.group, a.getPort.toNat) := by
    intro a
    obtain ⟨t, hspells, htext⟩ := a.spells_toString
    rw [htext, decimal_eq, hspells.readEndpoint_eq a.getPort_lt]
  refine ⟨fun a => ⟨_, hdenotes a, a.bytes_groups⟩, fun a b htext => ?_⟩
  have hread := hdenotes a
  rw [htext, hdenotes b, Option.some.injEq, Prod.mk.injEq] at hread
  ext1
  · rw [← a.bytes_groups, ← b.bytes_groups, hread.1]
  · exact sin6Port_eq hread.2.symm

/-- The first run of zeros is left out, the second one printed. -/
example : letI := x86_64
    toString ⟨[0x20, 1, 0, 0, 0x32, 0x38, 0, 0xe1, 0, 0x63, 0, 0, 0, 0, 0xfe, 0xfb], 0x5000, rfl⟩ =
      "[2001::3238:e1:63:0:0:fefb]:80".toList.map fun c => .ofNat 8 c.toNat := by decide +kernel

end

end IPv6Address

end XzmjxRpc
