import XzmjxRpc.Net.Stream
import XzmjxRpc.Utils.ByteArray.Iovec
import XzmjxRpc.Utils.FlatBuffer

/-!
# XzmjxRpc.Net.SocketWrite

The sending side of a connection: `SocketStream::write` (`net/socketstream.cpp`)
on the chunked buffer, whose segments from `getReadBuffers` go to `sendmsg`.

For a buffer that stands for a flat one, one call either puts the next cells
from the cursor on the wire and moves the cursor behind them, or puts nothing
there (`socketWrite_sendmsg`, `socketWrite_failed`).  A message longer than a
node never gets that far: `getReadBuffers` runs off the chain
(`socketWrite_fault`).
-/

namespace XzmjxRpc

/-- What the transport does with a write. -/
inductive Reply where
  /-- `isConnected()` is false. -/
  | notConnected
  /-- `sendmsg` would like to return `rt`: a failure, or a number of bytes,
  which is cut down to what the segments hold. -/
  | sendmsg (rt : Int)
  deriving DecidableEq, Repr

/-- `SocketStream::write(ba, length)`: the result, the buffer after the call,
and the bytes put on the wire. -/
def socketWrite (reply : Reply) (ba : ByteArray Byte) (length : Nat) :
    Except Fault (Int × ByteArray Byte × Bytes) :=
  match reply with
  | .notConnected => .ok (-1, ba, [])
  | .sendmsg rt =>
      match ba.getReadBuffers [] length with
      | .error e => .error e
      | .ok (_, iov) =>
          if rt ≤ 0 then .ok (rt, ba, [])
          else
            let bytes := (iov.map ba.segment).flatten.take rt.toNat
            if toInt bytes.length ≤ 0 then .ok (toInt bytes.length, ba, bytes)
            else
              (ba.setPosition (ba.position + (toInt bytes.length).toNat)).map fun ba' =>
                (toInt bytes.length, ba', bytes)

/-! ## what one write does -/

section
variable {ba : ByteArray Byte} {f : FlatBuffer Byte}

/-- The segments of a buffer of one node are all that is left in it. -/
theorem getReadBuffers_of_refines (h : ba.Refines f) (hpos : f.position < f.data.length)
    (hfit : f.data.length ≤ ba.baseSize) {length : Nat} (hlen : f.data.length ≤ length) :
    ∃ n iov, ba.getReadBuffers [] length = .ok (n, iov) ∧
      (iov.map ba.segment).flatten = f.toString := by
  have hsize : f.data.length = ba.size := by rw [← h.content, h.wf.length_content]
  have hp := h.position
  have hmod := Nat.mod_le ba.position ba.baseSize
  have hleft : ba.position + (ba.size - ba.position) ≤ ba.size := by omega
  obtain ⟨segs, hrun, hcells, -⟩ :=
    (ByteArray.gather_node_iff h.wf (by omega) hleft).mpr (by omega)
  refine ⟨ba.size - ba.position, segs, ?_, ?_⟩
  · rw [ByteArray.getReadBuffers_eq h.wf, Nat.min_eq_right (by omega), if_neg (by omega), hrun]
    rfl
  · rw [hcells, h.content, hp, ← hsize]
    exact List.take_of_length_le (by rw [List.length_drop])

/-- A write that fails, on a buffer of one node. -/
theorem socketWrite_failed (h : ba.Refines f) (hpos : f.position < f.data.length)
    (hfit : f.data.length ≤ ba.baseSize) {length : Nat} (hlen : f.data.length ≤ length) {rt : Int}
    (hrt : rt ≤ 0) : socketWrite (.sendmsg rt) ba length = .ok (rt, ba, []) := by
  obtain ⟨n, iov, hget, -⟩ := getReadBuffers_of_refines h hpos hfit hlen
  simp only [socketWrite, hget, if_pos hrt]

/-- A write that succeeds, on a buffer of one node: up to `rt` bytes from the
cursor on, which moves behind them. -/
theorem socketWrite_sendmsg (h : ba.Refines f) (hpos : f.position < f.data.length)
    (hfit : f.data.length ≤ ba.baseSize) (hbase : ba.baseSize < 2 ^ 31) {length : Nat}
    (hlen : f.data.length ≤ length) {rt : Int} (hrt : 0 < rt) :
    ∃ (k : Nat) (ba' : ByteArray Byte),
      socketWrite (.sendmsg rt) ba length = .ok (k, ba', f.toString.take k) ∧
      k = min rt.toNat (f.data.length - f.position) ∧
      ∃ hk : f.position + k ≤ f.data.length,
        ba'.Refines (f.setPosition (f.position + k) hk) ∧ ba'.baseSize = ba.baseSize := by
  obtain ⟨n, iov, hget, hcells⟩ := getReadBuffers_of_refines h hpos hfit hlen
  have hk : f.position + min rt.toNat (f.data.length - f.position) ≤ f.data.length := by omega
  have hcount : (f.toString.take rt.toNat).length = min rt.toNat (f.data.length - f.position) := by
    rw [List.length_take, FlatBuffer.toString, List.length_drop]
  have hint : toInt (min rt.toNat (f.data.length - f.position) : Nat) =
      (min rt.toNat (f.data.length - f.position) : Nat) := toInt_of_lt (by omega) (by omega)
  have hbytes : f.toString.take rt.toNat =
      f.toString.take (min rt.toNat (f.data.length - f.position)) := by
    rw [← hcount, List.length_take, ← List.take_take, List.take_length]
  obtain ⟨ba', hset, href⟩ := ByteArray.setPosition_refines h hk
  refine ⟨_, ba', ?_, rfl, hk, href, ByteArray.setPosition_baseSize hset⟩
  simp only [socketWrite, hget, hcells, hcount, hint, if_neg (Int.not_le.mpr hrt)]
  rw [if_neg (by omega), h.position, Int.toNat_natCast, hset, hbytes]
  rfl

/-- A message longer than a node: the first write that reaches
`getReadBuffers` faults. -/
theorem socketWrite_fault (h : ba.Refines f) (hpos : f.position = 0)
    (hlong : ba.baseSize < f.data.length) {length : Nat} (hlen : f.data.length ≤ length)
    (rt : Int) : socketWrite (.sendmsg rt) ba length = .error .nullNode := by
  have hsize : f.data.length = ba.size := by rw [← h.content, h.wf.length_content]
  have hp := h.position
  have hget : ba.getReadBuffers [] length = .error .nullNode := by
    rw [ByteArray.getReadBuffers_eq h.wf, Nat.min_eq_right (by omega), if_neg (by omega),
      ByteArray.gather_of_lt (h.wf.uniform.drop _) (by omega)]
    rfl
  simp only [socketWrite, hget]

/-- **One write** that returns, of a buffer with cells left whose cursor is
past the start only if it is one node: nothing, or the next `k` cells. -/
theorem socketWrite_cases (h : ba.Refines f) (hpos : f.position < f.data.length)
    (hshort : 0 < f.position → f.data.length ≤ ba.baseSize) (hbase : ba.baseSize < 2 ^ 31)
    {length : Nat} (hlen : f.data.length ≤ length) {reply : Reply} {rt : Int}
    {ba' : ByteArray Byte} {bytes : Bytes}
    (hw : socketWrite reply ba length = .ok (rt, ba', bytes)) :
    (rt ≤ 0 ∧ ba' = ba ∧ bytes = []) ∨
    ∃ (n : Int) (k : Nat) (hk : f.position + k ≤ f.data.length), reply = .sendmsg n ∧ 0 < n ∧
      f.data.length ≤ ba.baseSize ∧ 0 < k ∧ rt = k ∧ bytes = f.toString.take k ∧
      ba'.Refines (f.setPosition (f.position + k) hk) ∧ ba'.baseSize = ba.baseSize := by
  cases reply with
  | notConnected =>
      cases hw
      exact .inl ⟨by decide, rfl, rfl⟩
  | sendmsg n =>
      by_cases hfit : f.data.length ≤ ba.baseSize
      · by_cases hn : n ≤ 0
        · rw [socketWrite_failed h hpos hfit hlen hn] at hw
          cases hw
          exact .inl ⟨hn, rfl, rfl⟩
        · have hn : 0 < n := Int.not_le.mp hn
          obtain ⟨k, ba₁, hrun, hk, hle, href, hb⟩ := socketWrite_sendmsg h hpos hfit hbase hlen hn
          rw [hrun] at hw
          cases hw
          exact .inr ⟨n, k, hle, rfl, hn, hfit, by omega, rfl, rfl, href, hb⟩
      · have h0 : f.position = 0 := by
          by_contra hne
          exact hfit (hshort (by omega))
        rw [socketWrite_fault h h0 (by omega) hlen] at hw
        cases hw

end

end XzmjxRpc
