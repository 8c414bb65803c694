import XzmjxRpc.Rpc.Send.Fitting
import XzmjxRpc.Rpc.Session.Chunked
import XzmjxRpc.Rpc.Wire

/-!
# XzmjxRpc.Rpc.Wire.Chunked

A session from end to end on chunked byte arrays: the senders write out of
theirs, the peer receives into its own.

What the senders put on the wire fits the peer's nodes (`fitting_of_run`), and
with every receive fitting, `recvProtocol` is then the receiver of the codec
(`recvManyOn_eq`).  So the peer receives messages that were sent, in order, and
the end of the stream (`receivedOn_of_run`).
-/

namespace XzmjxRpc

open Protocol

section
variable [Machine]

/-! ## one message -/

/-- Before the end of a stream of plain messages only the header of the first
one is found. -/
theorem announces_inv {cut : Nat → Int} (hcut : ∀ i, 0 < cut i) {c c' : Conn} {m msg : Protocol}
    {rest : Bytes} (hm : Plain m) (hpre : c.stream <+: Send.encoded m ++ rest)
    (h : Announces cut c msg c') (hfit : c'.Fits) : msg = ofHeader m := by
  obtain ⟨⟨bt, hheader⟩, rfl⟩ := h
  obtain ⟨hfst, hsnd, -⟩ := readFixedSize_eq hcut hfit
  rw [hfst, hsnd] at hheader
  rcases Nat.lt_or_ge c.stream.length kHeaderLen with hshort | hlong
  · rw [readExact_of_lt _ (by decide) hshort, recvHeader, if_pos rfl] at hheader
    cases hheader
  · obtain ⟨hmagic, hversion, hcode, -⟩ := hm.fields
    obtain ⟨bt', hown⟩ := recvHeader_encodeHeader hmagic hversion hcode
    have hhdr := length_encodeHeader m
    have htake : c.stream.take kHeaderLen = m.encodeHeader := by
      obtain ⟨tail, htail⟩ := hpre
      rw [← List.take_append_of_le_length hlong, htail, hm.encoded, List.append_assoc,
        List.take_left' hhdr]
    rw [readExact_of_le _ (by decide) hlong, htake, hown] at hheader
    cases hheader
    rfl

/-- At the end of the stream none is. -/
theorem not_announces_nil {cut : Nat → Int} (hcut : ∀ i, 0 < cut i) {c c' : Conn} {msg : Protocol}
    (hnil : c.stream = []) (hfit : c'.Fits) : ¬ Announces cut c msg c' := by
  rintro ⟨⟨bt, hheader⟩, rfl⟩
  obtain ⟨hfst, hsnd, -⟩ := readFixedSize_eq hcut hfit
  rw [hfst, hsnd, hnil, readExact_of_lt _ (by decide) (by decide), recvHeader,
    if_pos rfl] at hheader
  cases hheader

/-- A message that fits a node announces less than a node. -/
theorem payloadLength_lt {m : Protocol} (hm : Plain m) (hone : Send.OneNode m) :
    (ofHeader m).getPayloadLength.toNat < Send.defaultBaseSize := by
  obtain ⟨-, -, -, -, -, hlen, -⟩ := hm.fields
  have hget : (ofHeader m).getPayloadLength = m.payloadLen := BitVec.sub_zero _
  have hhdr := length_encodeHeader m
  have h20 : 0 < kHeaderLen := by decide
  rw [Send.OneNode, hm.encoded, List.length_append, hhdr] at hone
  rw [hget, hlen]
  omega

/-! ## a stream -/

section
variable {arrive : Nat → Arrival}

/-- **One receive** on chunks of what the senders can put on a wire is the
receiver of the codec. -/
theorem recvProtocolOn_wire (harrive : ∀ i, 0 < (arrive i).result) {c : Conn} {ms : List Protocol}
    (hms : ∀ m ∈ ms, Plain m ∧ Send.OneNode m) (hpre : c.stream <+: ms.flatMap Send.encoded)
    (hfit : (recvProtocolOn Send.defaultBaseSize arrive c).2.Fits) :
    (recvProtocolOn Send.defaultBaseSize arrive c).1 = (wireCodec.receive c.stream).1 ∧
      (recvProtocolOn Send.defaultBaseSize arrive c).2.stream =
        (wireCodec.receive c.stream).2 := by
  have hheader := fits_of_recvProtocolOn (by decide) (by decide) hfit
  have heq := @recvProtocolOn_eq _ Send.defaultBaseSize arrive c (by decide) (by decide)
      fun msg c' hann => by
    have hc' : c'.Fits := hann.2 ▸ hheader
    cases ms with
    | nil => exact absurd hann (not_announces_nil harrive (List.prefix_nil.mp hpre) hc')
    | cons m ms =>
        obtain ⟨hm, hone⟩ := hms m List.mem_cons_self
        rw [List.flatMap_cons] at hpre
        rw [announces_inv harrive hm hpre hann hc']
        exact .inr ⟨payloadLength_lt hm hone, hfit⟩
  rw [heq] at hfit ⊢
  exact (recvProtocol_eq harrive hfit).2

/-- So are any number of them. -/
theorem recvManyOn_wire (harrive : ∀ i, 0 < (arrive i).result) {n : Nat} {c : Conn}
    {ms : List Protocol} (hms : ∀ m ∈ ms, Plain m ∧ Send.OneNode m)
    (hpre : c.stream <+: ms.flatMap Send.encoded)
    (hfit : (recvManyOn Send.defaultBaseSize arrive n c).2.Fits) :
    (recvManyOn Send.defaultBaseSize arrive n c).1 = (wireCodec.receiveMany n c.stream).1 := by
  induction n generalizing c ms with
  | zero => rfl
  | succ n ih =>
      rw [recvManyOn] at hfit ⊢
      have hone := fits_of_recvManyOn (by decide) (by decide) hfit
      obtain ⟨hfst, hstream⟩ := recvProtocolOn_wire harrive hms hpre hone
      obtain ⟨ms', hsuffix, hpre'⟩ :=
        FrameCodec.receive_prefix (F := wireCodec) (fun m hm => (hms m hm).1) hpre
      rw [FrameCodec.receiveMany, ← hfst, ← hstream] at *
      rw [ih (fun m hm => hms m (hsuffix.subset hm)) hpre' hfit]

end

/-- **What the peer receives** on chunked buffers: whatever messages the
senders of a session are called with, as long as they are plain and nothing is
written behind one given up half-way, successive receives that all fit give
messages that were sent and then the end of the stream. -/
theorem receivedOn_of_run {s : Send.State} {as : List Send.Action}
    (h : Lts.Run (Lts.Restrict Send.Step Send.SilentAfterTorn) Send.init as s)
    (hplain : ∀ m ∈ s.sent, Plain m) {arrive : Nat → Arrival}
    (harrive : ∀ i, 0 < (arrive i).result) (n : Nat)
    (hfit : (recvManyOn Send.defaultBaseSize arrive n { stream := s.wire }).2.Fits) :
    ∃ ms : List Protocol, (∀ m ∈ ms, m ∈ s.sent ∧ Send.OneNode m) ∧
      ms.flatMap Send.encoded <+: s.wire ∧
      (recvManyOn Send.defaultBaseSize arrive n { stream := s.wire }).1 =
        ms.map (fun m => .ok (some m)) ++ List.replicate (n - ms.length) (.ok none) := by
  obtain ⟨ms, hms, hwire⟩ := Send.fitting_of_run h
  have hok : ∀ m ∈ ms, Plain m ∧ Send.OneNode m := fun m hm => ⟨hplain m (hms m hm).1, (hms m hm).2⟩
  obtain ⟨ys, hys, hbytes, hmany⟩ := FrameCodec.receiveMany_prefix (F := wireCodec) n
    (fun m hm => (hok m hm).1) hwire
  refine ⟨ys, fun m hm => hms m (hys.subset hm), hbytes, ?_⟩
  rw [recvManyOn_wire harrive hok hwire hfit, hmany]
  rfl

end

/-- A heartbeat in whole, then two bytes of a request: the peer receives the
heartbeat and the end of the stream. -/
theorem receivedOn_of_run_torn :
    letI := x86_64
    ∃ s : Send.State, s.wire = Send.encoded .heartbeat ++ [0xfc, 0x10] ∧
      ∃ ms : List Protocol, (∀ m ∈ ms, m ∈ s.sent ∧ Send.OneNode m) ∧
        ms.flatMap Send.encoded <+: s.wire ∧
        (recvManyOn Send.defaultBaseSize (fun _ => .recvmsg 64) 3 { stream := s.wire }).1 =
          ms.map (fun m => .ok (some m)) ++ List.replicate (3 - ms.length) (.ok none) := by
  let m := x86_64
  obtain ⟨as, s₁, has, hs₁⟩ := Send.exists_send (s := Send.init) (c := 0) .heartbeat 20 rfl rfl
    (by decide) (by decide) (by decide) (fun _ a ht => Send.silentAfterTorn_of_untorn ht a)
  have htorn : s₁.torn = false := by
    rw [hs₁]
    rfl
  obtain ⟨bs, s₂, hbs, hs₂⟩ := Send.exists_send (s := s₁) (c := 1)
    (.createSuccess .kRpcMethodRequest [1, 2, 3] 0) 2 (by rw [hs₁]; rfl) (by rw [hs₁]; rfl)
    (by decide) (by decide) (by decide)
    (fun _ a ht => Send.silentAfterTorn_of_untorn (ht.trans htorn) a)
  have hsent : s₂.sent = [.createSuccess .kRpcMethodRequest [1, 2, 3] 0, .heartbeat] := by
    rw [hs₂, hs₁]
    rfl
  have hwire : s₂.wire = Send.encoded .heartbeat ++ [0xfc, 0x10] := by
    rw [hs₂, hs₁]
    rfl
  have hplain : ∀ m ∈ s₂.sent, Plain m := by
    rw [hsent, List.forall_mem_cons, List.forall_mem_singleton]
    exact ⟨plain_createSuccess _ (by decide) _, plain_heartbeat⟩
  have hfit : (recvManyOn Send.defaultBaseSize (fun _ => .recvmsg 64) 3
      { stream := s₂.wire }).2.Fits := by
    rw [hwire]
    decide +kernel
  exact ⟨s₂, hwire, receivedOn_of_run (has.append hbs) hplain (fun _ => by decide) 3 hfit⟩

end XzmjxRpc
