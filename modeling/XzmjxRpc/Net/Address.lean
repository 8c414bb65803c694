import XzmjxRpc.Lib.Numeral
import XzmjxRpc.Utils.Codec

/-!
# XzmjxRpc.Net.Address

`IPv4Address` (`net/address.h`, `net/address.cpp`): the socket address as the
kernel lays it out, in network byte order, and its text `a:b:c:d:port`.
-/

namespace XzmjxRpc

/-- `m_address` of an `IPv4Address`: `sin_addr.s_addr` and `sin_port`. -/
structure IPv4Address where
  sinAddr : BitVec 32
  sinPort : BitVec 16
  deriving DecidableEq, Repr

/-- What `<<` prints for an unsigned number. -/
def decimal (n : Nat) : Bytes := (Nat.toDigits 10 n).map fun c => BitVec.ofNat 8 c.toNat

theorem decimal_eq (n : Nat) : decimal n = Numeral.print 10 n := rfl

/-- A number can be told from what is printed for it. -/
theorem decimal_injective : Function.Injective decimal :=
  Numeral.print_injective (by decide) (by decide)

/-- What is no digit is not printed. -/
theorem notMem_decimal {c : Byte} (hc : Numeral.digit c = none) (n : Nat) : c ∉ decimal n :=
  Numeral.notMem_print (by decide) (by decide) hc n

namespace IPv4Address

/-- `":"`. -/
def colon : Byte := 58

/-- What stands after the last `":"` of an address's text: its port. -/
def portText (addr : Bytes) : Bytes := (addr.reverse.takeWhile (· ≠ colon)).reverse

/-- No digit is a `":"`. -/
theorem colon_notMem_decimal (n : Nat) : colon ∉ decimal n := notMem_decimal (by decide) n

theorem portText_append_decimal (host : Bytes) (n : Nat) :
    portText (host ++ [colon] ++ decimal n) = decimal n := by
  have hne : ∀ b ∈ (decimal n).reverse, decide (b ≠ colon) = true := by
    intro b hb
    rw [List.mem_reverse] at hb
    simpa using ne_of_mem_of_not_mem hb (colon_notMem_decimal n)
  rw [portText, List.reverse_append, List.reverse_append, List.takeWhile_append_of_pos hne,
    List.reverse_singleton, List.singleton_append, List.takeWhile_cons_of_neg (by simp),
    List.append_nil, List.reverse_reverse]

variable [Machine]

/-- `IPv4Address(address, port)`. -/
def ofHost (address : BitVec 32) (port : BitVec 16) : IPv4Address where
  sinAddr := endianCastByType (n := 4) address .big
  sinPort := endianCastByType (n := 2) port .big

/-- `setPort(port)`. -/
def setPort (a : IPv4Address) (port : BitVec 16) : IPv4Address :=
  { a with sinPort := endianCastByType (n := 2) port .big }

/-- `getPort()`. -/
def getPort (a : IPv4Address) : BitVec 32 :=
  (endianCastByType (n := 2) a.sinPort .big).setWidth 32

/-- `insert(out)`, whose text `toString()` returns. -/
def toString (a : IPv4Address) : Bytes :=
  let addr : BitVec 32 := endianCastByType (n := 4) a.sinAddr .big
  decimal ((addr >>> 24) &&& 0xff).toNat ++ [colon] ++ decimal ((addr >>> 16) &&& 0xff).toNat ++
    [colon] ++ decimal ((addr >>> 8) &&& 0xff).toNat ++ [colon] ++ decimal (addr &&& 0xff).toNat ++
    [colon] ++ decimal (endianCastByType (n := 2) a.sinPort .big).toNat

/-- The port that was set. -/
theorem getPort_setPort (a : IPv4Address) (port : BitVec 16) :
    (a.setPort port).getPort = port.setWidth 32 := by
  rw [getPort, setPort, endianCastByType_endianCastByType]

/-- The port that is printed. -/
theorem portText_toString (a : IPv4Address) : portText a.toString = decimal a.getPort.toNat := by
  rw [toString, portText_append_decimal, getPort, BitVec.toNat_setWidth_of_le (by decide)]

/-- An address is printed in host order, its port after it. -/
example : letI := x86_64
    (ofHost 0x7f000001 9999).toString = "127:0:0:1:9999".toList.map fun c => .ofNat 8 c.toNat := by
  decide +kernel

end IPv4Address

end XzmjxRpc
