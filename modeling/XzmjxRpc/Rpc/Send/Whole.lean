import XzmjxRpc.Net.FixedSize
import XzmjxRpc.Net.SocketWrite
import XzmjxRpc.Rpc.Protocol

/-!
# XzmjxRpc.Rpc.Send.Whole

One message on a transport that takes it in any pieces:
`writeFixedSize(bt, bt->getSize())`, as `sendProtocol` calls it, sends the
message whole or reports that it has not (`writeFixedSize_encoded`).

The transport is that of `XzmjxRpc.Net.FixedSize`; a `SocketStream` is one, as
long as the message lies in one node of its buffer
(`socketWrite_refines_streamWrite`).
-/

namespace XzmjxRpc

/-! ## the socket is such a transport -/

/-- A `sendmsg` on a buffer of one node does what the abstract write does. -/
theorem socketWrite_refines_streamWrite {ba : ByteArray Byte} {f : FlatBuffer Byte}
    (h : ba.Refines f) (hpos : f.position < f.data.length) (hfit : f.data.length ≤ ba.baseSize)
    (hbase : ba.baseSize < 2 ^ 31) {length : Nat} (hlen : f.data.length ≤ length)
    (reply : Nat → Int) (w : Wire) :
    ∃ (rt : Int) (ba' : ByteArray Byte) (f' : FlatBuffer Byte) (bytes : Bytes),
      socketWrite (.sendmsg (reply w.writes)) ba length = .ok (rt, ba', bytes) ∧
      streamWrite reply f length w = (rt, f', ⟨w.bytes ++ bytes, w.writes + 1⟩) ∧
      ba'.Refines f' ∧ ba'.baseSize = ba.baseSize := by
  by_cases hrt : reply w.writes ≤ 0
  · refine ⟨_, ba, f, [], socketWrite_failed h hpos hfit hlen hrt, ?_, h, rfl⟩
    rw [streamWrite, if_pos hrt, List.append_nil]
  · obtain ⟨k, ba', hrun, hk, hle, href, hb⟩ :=
      socketWrite_sendmsg h hpos hfit hbase hlen (Int.not_le.mp hrt)
    have hsent : w.sent reply f length = k := by
      rw [Wire.sent]
      omega
    have hint : toInt k = k := toInt_of_lt (by omega) (by omega)
    refine ⟨k, ba', _, _, hrun, ?_, href, hb⟩
    simp only [streamWrite, if_neg hrt, hsent, hint, Int.toNat_natCast]

/-! ## a whole message -/

section
variable [Machine]

/-- Every message has at least its header. -/
theorem kHeaderLen_le_encode {msg : Protocol} {bt : FlatBuffer Byte} (h : msg.encode = .ok bt) :
    Protocol.kHeaderLen ≤ bt.data.length := by
  rw [Protocol.encode_eq] at h
  cases hs : Protocol.cStr msg.payload msg.getPayloadLength.toNat with
  | error e =>
      rw [hs] at h
      cases h
  | ok s =>
      rw [hs] at h
      cases h
      rw [FlatBuffer.data_rewind, FlatBuffer.data_new_write, List.length_append,
        Protocol.length_encodeHeader]
      exact Nat.le_add_right _ _

/-- **A message is sent whole or not reported**: whatever the transport does,
the loop ends after no more writes than the message has bytes; when it reports
success exactly the bytes of the message have been sent, and otherwise the
bytes sent are only a beginning of it. -/
theorem writeFixedSize_encoded (reply : Nat → Int) {msg : Protocol} {bt : FlatBuffer Byte}
    (h : msg.encode = .ok bt) (hlen : bt.data.length < 2 ^ 31) (w : Wire) :
    ∃ (rt : Int) (bt' : FlatBuffer Byte) (n : Nat) (sent : Bytes),
      writeFixedSize reply bt bt.data.length w = (rt, bt', ⟨w.bytes ++ sent, w.writes + n⟩) ∧
      n ≤ bt.data.length ∧
      (0 < rt → sent = bt.data) ∧
      (rt ≤ 0 → sent <+: bt.data ∧ sent ≠ bt.data) := by
  have hhead := kHeaderLen_le_encode h
  have hpos := Protocol.position_encode h
  have hwhole : bt.toString = bt.data := by rw [FlatBuffer.toString, hpos, List.drop_zero]
  have hint : toInt bt.data.length = bt.data.length := toInt_of_lt (by omega) (by omega)
  obtain ⟨rt, n, m, hm, hrun, hn, hok, hfail⟩ :=
    writeLoop_spec reply bt w hlen (bt.data.length : Int)
  rw [hwhole] at hrun
  refine ⟨rt, _, n, _, by rw [writeFixedSize, hint, hrun], by omega, fun hrt => ?_, fun hrt => ?_⟩
  · have := hok hrt
    exact List.take_of_length_le (by omega)
  · refine ⟨List.take_prefix _ _, fun hall => ?_⟩
    have hcount := congrArg List.length hall
    rw [List.length_take] at hcount
    rcases hfail hrt with hshort | hzero
    · omega
    · rw [hzero] at hhead
      exact absurd hhead (by decide)

end

/-- A heartbeat in pieces of seven bytes. -/
theorem writeFixedSize_encoded_heartbeat :
    letI := x86_64
    ∃ (bt bt' : FlatBuffer Byte) (rt : Int) (n : Nat) (sent : Bytes),
      Protocol.heartbeat.encode = .ok bt ∧ bt.data.length = 20 ∧
      writeFixedSize (fun _ => 7) bt bt.data.length ⟨[], 0⟩ = (rt, bt', ⟨[] ++ sent, 0 + n⟩) ∧
      (0 < rt → sent = bt.data) := by
  let m := x86_64
  obtain ⟨bt, h, hlen⟩ : ∃ bt, Protocol.heartbeat.encode = .ok bt ∧ bt.data.length = 20 :=
    ⟨_, rfl, by decide⟩
  obtain ⟨rt, bt', n, sent, hrun, -, hok, -⟩ :=
    writeFixedSize_encoded (fun _ => 7) h (by omega) ⟨[], 0⟩
  exact ⟨bt, bt', rt, n, sent, h, hlen, hrun, hok⟩

end XzmjxRpc
