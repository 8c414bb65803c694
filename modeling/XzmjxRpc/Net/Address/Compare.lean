import XzmjxRpc.Lib.Lexical
import XzmjxRpc.Utils.Codec

/-!
# XzmjxRpc.Net.Address.Compare

`operator<` and `operator==` of `Address` (`net/address.h`, `net/address.cpp`),
on the memory of the socket addresses.

Addresses are compared on the bytes that both have, and a tie is to go to the
shorter one; but the tie-break compares `getAddrLen()` with itself.  So an
address whose bytes are the front of another's is neither less, nor greater,
nor equal, and for all others the order is strict and total (`ordered_iff`).
-/

namespace XzmjxRpc

open Lexical (Before ProperFront ExactlyOne)

/-- A socket address of `n` bytes as it lies in memory. -/
structure SockAddr (n : Nat) where
  bytes : Bytes
  length_bytes : bytes.length = n

/-- `UnixAddress`. -/
structure UnixAddress where
  mAddress : SockAddr 110
  mLength : Nat
  /-- The length stays inside `m_address`. -/
  mLength_le : mLength ≤ 110

namespace UnixAddress

/-- `offsetof(sockaddr_un, sun_path)`. -/
def sunPathOffset : Nat := 2
/-- `sizeof(m_address.sun_path)`. -/
def sunPathSize : Nat := 108
/-- `MAX_PATH_LEN`. -/
def maxPathLen : Nat := sunPathSize - 1

section
variable [Machine]

/-- `AF_UNIX`. -/
def afUnix : BitVec 16 := 1

/-- A cleared `sockaddr_un` with this `sun_family`, `path` copied to the front of
`sun_path`. -/
def sockaddr (sunFamily : BitVec 16) (path : Bytes) (h : path.length ≤ sunPathSize) :
    SockAddr 110 where
  bytes := Machine.native.bytes (n := 2) sunFamily ++
    (path ++ List.replicate (sunPathSize - path.length) 0)
  length_bytes := by
    rw [List.length_append, List.length_append, Endian.length_bytes, List.length_replicate]
    rw [sunPathSize] at h ⊢
    omega

/-- `UnixAddress()`. -/
def new : UnixAddress where
  mAddress := sockaddr afUnix [] (Nat.zero_le _)
  mLength := sunPathOffset + maxPathLen
  mLength_le := by decide

/-- `UnixAddress(path)`: the terminating zero of an abstract name, one that
starts with a zero, does not count.  `sun_family` is not set. -/
def ofPath (path : Bytes) : Except String UnixAddress :=
  let mLength : BitVec 32 := BitVec.ofNat 32 (path.length + 1)
  let mLength := if path.head? = some 0 then mLength - 1 else mLength
  if h : sunPathSize < mLength.toNat then .error "path too long"
  else
    have hle : mLength.toNat ≤ sunPathSize := Nat.le_of_not_lt h
    .ok {
      mAddress := sockaddr 0 ((path ++ [0]).take mLength.toNat)
        (Nat.le_trans (List.length_take_le _ _) hle)
      mLength := mLength.toNat + sunPathOffset
      mLength_le := Nat.add_le_add_right hle sunPathOffset }

end

/-- `setAddrLen(v)`, with a length the kernel has filled in. -/
def setAddrLen (a : UnixAddress) (v : Nat) (h : v ≤ 110) : UnixAddress :=
  { a with mLength := v, mLength_le := h }

end UnixAddress

/-- `memcmp(s, t, n)`, of which only the sign is specified. -/
def memcmp : Nat → Bytes → Bytes → Int
  | n + 1, x :: xs, y :: ys => if x < y then -1 else if y < x then 1 else memcmp n xs ys
  | _, _, _ => 0

/-- `Address`, by its derived classes. -/
inductive Address where
  /-- `IPv4Address`, a `sockaddr_in`. -/
  | ipv4 (mAddress : SockAddr 16)
  /-- `IPv6Address`, a `sockaddr_in6`. -/
  | ipv6 (mAddress : SockAddr 28)
  /-- `UnixAddress`, a `sockaddr_un`. -/
  | unix (a : UnixAddress)
  /-- `UnknownAddress`, a `sockaddr`. -/
  | unknown (mAddress : SockAddr 16)

namespace Address

/-- `getAddr()`: the memory it points to. -/
def getAddr : Address → Bytes
  | ipv4 s => s.bytes
  | ipv6 s => s.bytes
  | unix a => a.mAddress.bytes
  | unknown s => s.bytes

/-- `getAddrLen()`. -/
def getAddrLen : Address → Nat
  | ipv4 _ => 16
  | ipv6 _ => 28
  | unix a => a.mLength
  | unknown _ => 16

/-- `operator<`. -/
def lt (a rhs : Address) : Bool :=
  let minSize := min a.getAddrLen rhs.getAddrLen
  let result := memcmp minSize a.getAddr rhs.getAddr
  if result < 0 then true
  else if result > 0 then false
  else if a.getAddrLen < a.getAddrLen then true
  else false

/-- `operator==`. -/
def eq (a rhs : Address) : Bool :=
  a.getAddrLen == rhs.getAddrLen && memcmp a.getAddrLen a.getAddr rhs.getAddr == 0

/-- The bytes of an address. -/
def bytes (a : Address) : Bytes := a.getAddr.take a.getAddrLen

/-- The length stays inside the memory. -/
theorem getAddrLen_le (a : Address) : a.getAddrLen ≤ a.getAddr.length := by
  cases a with
  | ipv4 s => exact Nat.le_of_eq s.length_bytes.symm
  | ipv6 s => exact Nat.le_of_eq s.length_bytes.symm
  | unix a =>
      have hlen : a.mLength ≤ a.mAddress.bytes.length := by
        rw [a.mAddress.length_bytes]
        exact a.mLength_le
      exact hlen
  | unknown s => exact Nat.le_of_eq s.length_bytes.symm

theorem length_bytes (a : Address) : a.bytes.length = a.getAddrLen := by
  rw [bytes, List.length_take, Nat.min_eq_left a.getAddrLen_le]

/-! ## what `memcmp` says -/

/-- Swapping the arguments changes the sign. -/
theorem memcmp_swap (n : Nat) (xs ys : Bytes) : memcmp n ys xs = - memcmp n xs ys := by
  induction n generalizing xs ys with
  | zero => rfl
  | succ n ih =>
      cases xs with
      | nil => cases ys <;> rfl
      | cons x xs =>
          cases ys with
          | nil => rfl
          | cons y ys =>
              rw [memcmp, memcmp]
              by_cases hxy : x < y
              · rw [if_neg (BitVec.lt_asymm hxy), if_pos hxy, if_pos hxy]
                rfl
              · by_cases hyx : y < x
                · rw [if_pos hyx, if_neg hxy, if_pos hyx]
                · rw [if_neg hyx, if_neg hxy, if_neg hxy, if_neg hyx, ih]

/-- Less than zero: at the first difference, the lesser byte. -/
theorem memcmp_neg_iff {n : Nat} {xs ys : Bytes} :
    memcmp n xs ys < 0 ↔ Before (xs.take n) (ys.take n) := by
  induction n generalizing xs ys with
  | zero => simp [memcmp, Before]
  | succ n ih =>
      cases xs with
      | nil => simp [memcmp, Before]
      | cons x xs =>
          cases ys with
          | nil => simp [memcmp, Before]
          | cons y ys =>
              rw [memcmp, List.take_succ_cons, List.take_succ_cons, Before]
              rcases Std.lt_trichotomy x y with hlt | rfl | hgt
              · simp [hlt]
              · simp [Std.lt_irrefl, ih]
              · have hne : x ≠ y := fun h => Std.lt_irrefl (h ▸ hgt)
                simp [BitVec.lt_asymm hgt, hgt, hne]

theorem memcmp_pos_iff {n : Nat} {xs ys : Bytes} :
    0 < memcmp n xs ys ↔ Before (ys.take n) (xs.take n) := by
  rw [← memcmp_neg_iff, memcmp_swap n xs ys]
  omega

/-- Zero: no difference. -/
theorem memcmp_eq_zero_iff {n : Nat} {xs ys : Bytes} (h : (xs.take n).length = (ys.take n).length) :
    memcmp n xs ys = 0 ↔ xs.take n = ys.take n := by
  have hneg : memcmp n xs ys < 0 ↔ _ := memcmp_neg_iff
  have hpos : 0 < memcmp n xs ys ↔ _ := memcmp_pos_iff
  constructor
  · intro hzero
    rcases Lexical.before_or_front (xs.take n) (ys.take n) with hb | hb | hb | hb
    · have := hneg.mpr hb
      omega
    · have := hpos.mpr hb
      omega
    · exact hb.eq_of_length h
    · exact (hb.eq_of_length h.symm).symm
  · intro heq
    have hself : ¬ Before (ys.take n) (ys.take n) := Lexical.not_before_self _
    rw [heq] at hneg hpos
    have := mt hneg.mp hself
    have := mt hpos.mp hself
    omega

/-! ## the order -/

/-- `operator<` compares the bytes at their first difference. -/
theorem lt_iff (a b : Address) : a.lt b = true ↔ Before a.bytes b.bytes := by
  have hcommon : Before (a.getAddr.take (min a.getAddrLen b.getAddrLen))
      (b.getAddr.take (min a.getAddrLen b.getAddrLen)) ↔ Before a.bytes b.bytes := by
    have htake : Before (a.bytes.take (min a.getAddrLen b.getAddrLen))
        (b.bytes.take (min a.getAddrLen b.getAddrLen)) ↔ Before a.bytes b.bytes :=
      Lexical.before_take (by rw [length_bytes, length_bytes])
    rwa [bytes, bytes, List.take_take, List.take_take, Nat.min_eq_left (Nat.min_le_left _ _),
      Nat.min_eq_left (Nat.min_le_right _ _)] at htake
  rw [← hcommon, ← memcmp_neg_iff]
  simp [lt]

/-- `operator==` compares all bytes. -/
theorem eq_iff (a b : Address) : a.eq b = true ↔ a.bytes = b.bytes := by
  rw [eq, Bool.and_eq_true, beq_iff_eq, beq_iff_eq]
  by_cases hlen : a.getAddrLen = b.getAddrLen
  · have hbytes : b.getAddr.take a.getAddrLen = b.bytes := by rw [bytes, hlen]
    have htake : (a.getAddr.take a.getAddrLen).length = (b.getAddr.take a.getAddrLen).length := by
      rw [hbytes, length_bytes, ← hlen]
      exact a.length_bytes
    rw [memcmp_eq_zero_iff htake, hbytes, and_iff_right hlen]
    exact Iff.rfl
  · have hne : a.bytes ≠ b.bytes := by
      intro heq
      have hlength := congrArg List.length heq
      rw [length_bytes, length_bytes] at hlength
      exact hlen hlength
    exact iff_of_false (fun h => hlen h.1) hne

/-- **Any three addresses**: exactly one of `a < b`, `b < a` and `a == b` holds,
and `<` is transitive, if and only if the bytes of neither of `a` and `b` are a
proper front of the other's. -/
theorem ordered_iff (a b c : Address) :
    (ExactlyOne (a.lt b) (b.lt a) (a.eq b) ∧ (a.lt b → b.lt c → a.lt c)) ↔
      ¬ ProperFront a.bytes b.bytes ∧ ¬ ProperFront b.bytes a.bytes := by
  have htrans : a.lt b → b.lt c → a.lt c := by
    rw [lt_iff, lt_iff, lt_iff]
    exact Before.trans
  rw [and_iff_left htrans, ← Lexical.exactlyOne_iff, lt_iff, lt_iff, eq_iff]

/-- Two abstract names, one the front of the other. -/
theorem not_exactlyOne_abstract : letI := x86_64
    ∃ a b, UnixAddress.ofPath [0, 97] = .ok a ∧ UnixAddress.ofPath [0, 97, 98] = .ok b ∧
      ¬ ExactlyOne ((unix a).lt (unix b)) ((unix b).lt (unix a)) ((unix a).eq (unix b)) := by
  let m := x86_64
  refine ⟨_, _, rfl, rfl, ?_⟩
  unfold ExactlyOne
  decide +kernel

/-- The address of an unnamed peer is the front of any other of its family. -/
example : letI := x86_64
    let peer := unix (UnixAddress.new.setAddrLen UnixAddress.sunPathOffset (by decide))
    peer.lt (unix .new) = false ∧ (unix .new).lt peer = false ∧ peer.eq (unix .new) = false := by
  decide +kernel

end Address

end XzmjxRpc
