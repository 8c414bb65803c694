import XzmjxRpc.Net.SocketRead
import XzmjxRpc.Rpc.Serializer.Chunked
import XzmjxRpc.Rpc.Session.Throws

/-!
# XzmjxRpc.Rpc.Session.Chunked

`RpcSession::recvProtocol` on the chunked byte array it really receives into.

For payloads of up to half a node it is the function of `XzmjxRpc.Rpc.Session`
on every transport, and for less than a node on those none of whose receives
returns more than its loop still needs (`recvProtocolOn_eq`).  A header that
announces more than a node is enough to make it use a null node
(`recvProtocolOn_null`), whatever follows.
-/

namespace XzmjxRpc

open Serializer

section
variable [Machine]

/-- `decodeHeader(bt)`, read by read. -/
def askHeader (p : Protocol) : Script Ask Byte Protocol := do
  let magic ← askFuint8
  let version ← askFuint8
  let type ← askFuint8
  let temp ← askFuint8
  let seq ← askFixed 8 .big
  let payloadLen ← askFixed 8 .big
  pure { p with
    magic := magic
    version := version
    type := ⟨type⟩
    errCode := ⟨temp >>> 1⟩
    carryMsg := decide (temp &&& 1 ≠ 0)
    seq := seq
    payloadLen := payloadLen }

/-- `recvProtocol` from the result `n` of reading the header into `bt` on. -/
def recvHeaderOn (n : Int) (bt : ByteArray Byte) :
    Except Fault (Option (Protocol × ByteArray Byte)) :=
  if n = 0 then .ok none
  else if n < 0 then .ok none
  else do
    let bt ← bt.setPosition 0
    let (msg, bt) ← (askHeader {}).on fromChunks bt
    if msg.magic ≠ Protocol.kMagic then .ok none
    else if msg.version ≠ Protocol.kDefaultVersion then .ok none
    else .ok (some (msg, bt))

/-- `recvProtocol` from the result `n` of reading the body into `bt` on. -/
def recvBodyOn (msg : Protocol) (n : Int) (bt : ByteArray Byte) :
    Except Fault (Option Protocol) :=
  if n ≤ 0 then .ok none
  else do
    let bt ← bt.setPosition 0
    if msg.carryMsg then
      let (text, bt) ← askStringVint.on fromChunks bt
      let payload ← bt.toString
      pure (some { msg.setErrMsg text with payload := payload })
    else
      let payload ← bt.toString
      pure (some { msg with payload := payload })

/-- `recvProtocol` after its second read, which gave `out`. -/
def recvFinishOn (msg : Protocol) :
    Except Fault (Int × ByteArray Byte) × Conn → Except Fault (Option Protocol) × Conn
  | (.error e, c) => (.error e, c)
  | (.ok (n, bt), c) => (recvBodyOn msg n bt, c)

/-- `recvProtocol()`, into nodes of `base` bytes. -/
def recvProtocolOn (base : Nat) (arrive : Nat → Arrival) (c : Conn) :
    Except Fault (Option Protocol) × Conn :=
  match readFixedSizeOn arrive (.new base) Protocol.kHeaderLen c with
  | (.error e, c) => (.error e, c)
  | (.ok (n, bt), c) =>
      match recvHeaderOn n bt with
      | .error e => (.error e, c)
      | .ok none => (.ok none, c)
      | .ok (some (msg, bt)) =>
          if msg.getPayloadLength ≠ 0 then
            recvFinishOn msg (readFixedSizeOn arrive bt.clear msg.getPayloadLength.toNat c)
          else (.ok (some msg), c)

/-- `n` successive calls of `recvProtocol` and what each of them gave. -/
def recvManyOn (base : Nat) (arrive : Nat → Arrival) :
    Nat → Conn → List (Except Fault (Option Protocol)) × Conn
  | 0, c => ([], c)
  | n + 1, c =>
      let out := recvProtocolOn base arrive c
      let outs := recvManyOn base arrive n out.2
      (out.1 :: outs.1, outs.2)

/-- The header that `recvProtocol` finds on the connection `c` is that of `msg`,
and `c'` is the connection after it. -/
def Announces (cut : Nat → Int) (c : Conn) (msg : Protocol) (c' : Conn) : Prop :=
  let out := readFixedSize cut .new Protocol.kHeaderLen c
  (∃ bt, recvHeader out.1 out.2.1 = .ok (some (msg, bt))) ∧ out.2.2 = c'

/-! ## the header and the body -/

theorem on_askHeader (p : Protocol) : (askHeader p).on fromStream = p.decodeHeader := by
  simp only [askHeader, Protocol.decodeHeader, Script.on_bind, on_askFuint8, on_askFixed]
  rfl

section
variable {base : Nat} {bt : ByteArray Byte} {f : FlatBuffer Byte} {n : Int}

/-- **The header** inside the first node. -/
theorem recvHeaderOn_eq (h : Small base bt f) (n : Int) :
    (∃ e, recvHeaderOn n bt = .error e ∧ recvHeader n f = .error e) ∨
      (recvHeaderOn n bt = .ok none ∧ recvHeader n f = .ok none) ∨
      ∃ msg bt' f', recvHeaderOn n bt = .ok (some (msg, bt')) ∧
        recvHeader n f = .ok (some (msg, f')) ∧ Small base bt' f' := by
  unfold recvHeaderOn recvHeader
  by_cases h0 : n = 0
  · rw [if_pos h0, if_pos h0]
    exact .inr (.inl ⟨rfl, rfl⟩)
  · rw [if_neg h0, if_neg h0]
    by_cases hneg : n < 0
    · rw [if_pos hneg, if_pos hneg]
      exact .inr (.inl ⟨rfl, rfl⟩)
    · rw [if_neg hneg, if_neg hneg]
      obtain ⟨b₁, hset, h₁⟩ := h.rewind
      have hmatch := h₁.on (askHeader {})
      rw [hset, ← on_askHeader, run_on]
      dsimp only [bind, Except.bind]
      generalize (askHeader {}).on fromChunks b₁ = r at hmatch ⊢
      generalize (askHeader {}).on fromFlat f.rewind = r' at hmatch ⊢
      cases hmatch with
      | error e => exact .inl ⟨e, rfl, rfl⟩
      | @ok msg b₂ f₂ h₂ =>
          dsimp only
          split
          · exact .inr (.inl ⟨rfl, rfl⟩)
          · split
            · exact .inr (.inl ⟨rfl, rfl⟩)
            · exact .inr (.inr ⟨msg, b₂, f₂, rfl, rfl, h₂⟩)

/-- **The body** inside the first node. -/
theorem recvBodyOn_eq (h : Small base bt f) (msg : Protocol) (n : Int) :
    recvBodyOn msg n bt = recvBody msg n f := by
  unfold recvBodyOn recvBody
  by_cases h0 : n ≤ 0
  · rw [if_pos h0, if_pos h0]
  · rw [if_neg h0, if_neg h0]
    obtain ⟨b₁, hset, h₁⟩ := h.rewind
    rw [hset]
    dsimp only [bind, Except.bind]
    by_cases hcarry : msg.carryMsg = true
    · have hmatch := h₁.on askStringVint
      rw [if_pos hcarry, if_pos hcarry, ← on_askStringVint, run_on]
      generalize askStringVint.on fromChunks b₁ = r at hmatch ⊢
      generalize askStringVint.on fromFlat f.rewind = r' at hmatch ⊢
      cases hmatch with
      | error e => rfl
      | @ok text b₂ f₂ h₂ =>
          dsimp only
          rw [h₂.toString]
          rfl
    · rw [if_neg hcarry, if_neg hcarry, h₁.toString]
      rfl

end

theorem recvFinishOn_snd (msg : Protocol) (out : Except Fault (Int × ByteArray Byte) × Conn) :
    (recvFinishOn msg out).2 = out.2 := by
  obtain ⟨_ | _, _⟩ := out <;> rfl

/-! ## recvProtocol -/

section
variable {base : Nat} {arrive : Nat → Arrival} {c : Conn}

omit [Machine] in
/-- The header lies in the first node, whatever comes in. -/
theorem readHeaderOn_eq (hbase : 40 ≤ base) (hmax : base < 2 ^ 30) (arrive : Nat → Arrival)
    (c : Conn) :
    ∃ bt, readFixedSizeOn arrive (.new base) Protocol.kHeaderLen c =
        (.ok ((readFixedSize (flatCut arrive) .new Protocol.kHeaderLen c).1, bt),
          (readFixedSize (flatCut arrive) .new Protocol.kHeaderLen c).2.2) ∧
      Small base bt (readFixedSize (flatCut arrive) .new Protocol.kHeaderLen c).2.1 := by
  have hnew := ByteArray.new_refines (α := Byte) (show 0 < base by omega)
  obtain ⟨bt, hread, href, hlt, hb⟩ := @readFixedSizeOn_eq arrive Protocol.kHeaderLen _ c hnew hmax
    (.inl (show 2 * 20 ≤ base by omega))
  exact ⟨bt, hread, href, hb, hlt⟩

/-- From a header on that announces a payload, its buffer is received into. -/
theorem recvProtocolOn_body (hbase : 40 ≤ base) (hmax : base < 2 ^ 30) {msg : Protocol}
    {c' : Conn} (h : Announces (flatCut arrive) c msg c') (hlen : msg.getPayloadLength ≠ 0) :
    ∃ bt, bt.Refines .new ∧ bt.baseSize = base ∧
      recvProtocolOn base arrive c =
        recvFinishOn msg (readFixedSizeOn arrive bt msg.getPayloadLength.toNat c') := by
  obtain ⟨bt, hread, hsmall⟩ := readHeaderOn_eq hbase hmax arrive c
  obtain ⟨⟨f, hflat⟩, rfl⟩ := h
  rcases recvHeaderOn_eq hsmall _ with ⟨e, -, herr⟩ | ⟨-, hnone⟩ | ⟨m, bt', f', hon, hsome, h'⟩
  · rw [hflat] at herr
    cases herr
  · rw [hflat] at hnone
    cases hnone
  · rw [hflat] at hsome
    cases hsome
    refine ⟨bt'.clear, ByteArray.clear_refines h'.toRefines, h'.base_eq, ?_⟩
    rw [recvProtocolOn, hread]
    simp only [hon]
    rw [if_pos hlen]

/-- If all receives fitted after `recvProtocol`, they did when its header was read. -/
theorem fits_of_recvProtocolOn (hbase : 40 ≤ base) (hmax : base < 2 ^ 30)
    (h : (recvProtocolOn base arrive c).2.Fits) :
    (readFixedSize (flatCut arrive) .new Protocol.kHeaderLen c).2.2.Fits := by
  obtain ⟨bt, hread, -⟩ := readHeaderOn_eq hbase hmax arrive c
  rw [recvProtocolOn, hread] at h
  dsimp only at h
  split at h
  · exact h
  · exact h
  · split at h
    · rw [recvFinishOn_snd, readFixedSizeOn] at h
      exact fits_of_readLoopOn h
    · exact h

/-- Receives are only ever added. -/
theorem fits_of_recvManyOn (hbase : 40 ≤ base) (hmax : base < 2 ^ 30) {n : Nat}
    (h : (recvManyOn base arrive n c).2.Fits) : c.Fits := by
  induction n generalizing c with
  | zero => exact h
  | succ n ih =>
      rw [recvManyOn] at h
      exact fits_of_readFixedSize (fits_of_recvProtocolOn hbase hmax (ih h))

/-- **recvProtocol** on chunks is that on flat buffers for payloads of up to
half a node, and for less than a node when every receive fits. -/
theorem recvProtocolOn_eq (hbase : 40 ≤ base) (hmax : base < 2 ^ 30)
    (hcalm : ∀ msg c', Announces (flatCut arrive) c msg c' →
      2 * msg.getPayloadLength.toNat ≤ base ∨
        msg.getPayloadLength.toNat < base ∧ (recvProtocolOn base arrive c).2.Fits) :
    recvProtocolOn base arrive c = recvProtocol (readFixedSize (flatCut arrive)) c := by
  obtain ⟨bt, hread, hsmall⟩ := readHeaderOn_eq hbase hmax arrive c
  rcases recvHeaderOn_eq hsmall _ with
    ⟨e, hon, hflat⟩ | ⟨hon, hflat⟩ | ⟨msg, bt', f', hon, hflat, h'⟩
  · rw [recvProtocolOn, hread, recvProtocol, recvRest_error hflat]
    simp only [hon]
  · rw [recvProtocolOn, hread, recvProtocol, recvRest_none hflat]
    simp only [hon]
  · by_cases hlen : msg.getPayloadLength = 0
    · rw [recvProtocolOn, hread, recvProtocol, recvRest_empty hflat hlen]
      simp only [hon]
      rw [if_neg (not_not_intro hlen)]
    · have hann : Announces (flatCut arrive) c msg _ := ⟨⟨f', hflat⟩, rfl⟩
      obtain ⟨b, href, hb, hbody⟩ := recvProtocolOn_body hbase hmax hann hlen
      have hcalm := hcalm msg _ hann
      rw [hbody, recvFinishOn_snd, ← hb] at hcalm
      obtain ⟨b', hread', href', hlt', hb'⟩ := readFixedSizeOn_eq href (hb ▸ hmax) hcalm
      rw [hbody, hread', recvProtocol, recvRest_body hflat hlen, recvFinish, FlatBuffer.clear_eq,
        recvFinishOn, recvBodyOn_eq ⟨href', hb', hlt'⟩]

/-- **A null node** for anybody who can send twenty bytes: a header that
announces more than a node, whatever follows it. -/
theorem recvProtocolOn_null (hbase : 40 ≤ base) (hmax : base < 2 ^ 30) {msg : Protocol} {c' : Conn}
    (h : Announces (flatCut arrive) c msg c') (hlong : base < msg.getPayloadLength.toNat)
    (h31 : msg.getPayloadLength.toNat < 2 ^ 31) {rt : Int}
    (hrt : arrive c'.rounds.length = .recvmsg rt) :
    recvProtocolOn base arrive c = (.error .nullNode, c') := by
  have hlen : msg.getPayloadLength ≠ 0 := by
    intro h0
    rw [h0] at hlong
    exact absurd hlong (Nat.not_lt_zero _)
  obtain ⟨b, href, hb, hbody⟩ := recvProtocolOn_body hbase hmax h hlen
  rw [hbody, readFixedSizeOn_null href.wf (hb ▸ hlong) h31 hrt]
  rfl

/-- What `recvProtocol` throws on flat buffers is for want of data. -/
theorem recvProtocol_error {cut : Nat → Int} {c : Conn} {e : Fault}
    (h : (recvProtocol (readFixedSize cut) c).1 = .error e) : e.Thrown := by
  have hlen := kHeaderLen_le_readFixedSize cut c
  rw [recvProtocol] at h
  generalize readFixedSize cut .new Protocol.kHeaderLen c = head at h hlen
  have hreturns : ∃ o, recvHeader head.1 head.2.1 = .ok o := by
    by_cases hn : 0 < head.1
    · obtain ⟨bt, hheader⟩ := recvHeader_headerOf hn (hlen hn)
      rw [hheader]
      split
      · exact ⟨_, rfl⟩
      · split <;> exact ⟨_, rfl⟩
    · unfold recvHeader
      split
      · exact ⟨_, rfl⟩
      · exact ⟨_, if_pos (by omega)⟩
  obtain ⟨_ | ⟨msg, bt⟩, hheader⟩ := hreturns
  · rw [recvRest_none hheader] at h
    cases h
  · by_cases hzero : msg.getPayloadLength = 0
    · rw [recvRest_empty hheader hzero] at h
      cases h
    · rw [recvRest_body hheader hzero, recvFinish_fst] at h
      generalize readFixedSize cut bt.clear msg.getPayloadLength.toNat head.2.2 = body at h
      obtain ⟨hpos, hcarry, htext⟩ := (recvBody_eq_error_iff msg body.1 body.2.1).mp ⟨e, h⟩
      obtain ⟨e', hthrown, herr⟩ := readStringVint_eq_error htext
      rw [recvBody, if_neg (by omega), if_pos hcarry, FlatBuffer.run, FlatBuffer.toString_rewind,
        herr] at h
      cases h
      exact hthrown

/-- A payload of more than a node on a connection that is closed already: no
message. -/
theorem recvProtocolOn_notConnected (hbase : 40 ≤ base) (hmax : base < 2 ^ 30) {msg : Protocol}
    {c' : Conn} (h : Announces (flatCut arrive) c msg c') (hlen : msg.getPayloadLength ≠ 0)
    (h31 : msg.getPayloadLength.toNat < 2 ^ 31)
    (hclosed : arrive c'.rounds.length = .notConnected) :
    (recvProtocolOn base arrive c).1 = .ok none := by
  obtain ⟨b, -, -, hbody⟩ := recvProtocolOn_body hbase hmax h hlen
  have h0 : 0 < msg.getPayloadLength.toNat :=
    Nat.pos_of_ne_zero fun h => hlen (BitVec.eq_of_toNat_eq h)
  rw [hbody, readFixedSizeOn_notConnected h0 h31 hclosed]
  rfl

/-- **The null node** of `recvProtocol`, exactly: on a connection that is open,
a header that announces more than a node. -/
theorem recvProtocolOn_null_iff (hbase : 40 ≤ base) (hmax : base < 2 ^ 30)
    (h : ∀ msg c', Announces (flatCut arrive) c msg c' →
      msg.getPayloadLength.toNat < 2 ^ 31 ∧ msg.getPayloadLength.toNat ≠ base ∧
        (msg.getPayloadLength.toNat < base → 2 * msg.getPayloadLength.toNat ≤ base ∨
          (recvProtocolOn base arrive c).2.Fits)) :
    (recvProtocolOn base arrive c).1 = .error .nullNode ↔
      ∃ msg c', Announces (flatCut arrive) c msg c' ∧ base < msg.getPayloadLength.toNat ∧
        arrive c'.rounds.length ≠ .notConnected := by
  constructor
  · intro hnull
    by_contra hno
    have heq := recvProtocolOn_eq hbase hmax fun msg c' hann => by
      obtain ⟨h31, hne, hcalm⟩ := h msg c' hann
      rcases Nat.lt_or_ge msg.getPayloadLength.toNat base with hlt | hge
      · exact (hcalm hlt).imp_right fun hfit => ⟨hlt, hfit⟩
      · -- more than a node, so that the connection must be closed
        have hclosed : arrive c'.rounds.length = .notConnected := by
          by_contra hopen
          exact hno ⟨msg, c', hann, by omega, hopen⟩
        have hlen : msg.getPayloadLength ≠ 0 := by
          intro h0
          have hzero : msg.getPayloadLength.toNat = 0 := by rw [h0]; rfl
          omega
        rw [recvProtocolOn_notConnected hbase hmax hann hlen h31 hclosed] at hnull
        cases hnull
    rw [heq] at hnull
    exact not_thrown_nullNode (recvProtocol_error hnull)
  · rintro ⟨msg, c', hann, hlong, hopen⟩
    have h31 := (h msg c' hann).1
    cases harr : arrive c'.rounds.length with
    | notConnected => exact absurd harr hopen
    | recvmsg rt => rw [recvProtocolOn_null hbase hmax hann hlong h31 harr]

end

end

/-- The header of a request with 4097 bytes of payload. -/
def longHeader : Bytes := [0xfc, 0x10, 0, 2] ++ List.replicate 14 0 ++ [0x10, 1]

/-- It is enough for the nodes of 4096 bytes that `recvProtocol` uses. -/
theorem recvProtocolOn_null_iff_long :
    letI := x86_64
    (recvProtocolOn 4096 (fun _ => .recvmsg 64) { stream := longHeader }).1 = .error .nullNode := by
  let m := x86_64
  have hread : readFixedSize (flatCut fun _ => .recvmsg 64) .new Protocol.kHeaderLen
      { stream := longHeader } = (20, FlatBuffer.new.write longHeader, ⟨[], [⟨20, 20⟩]⟩) := by
    decide +kernel
  obtain ⟨bt, hheader⟩ := @recvHeader_headerOf m 20 (by decide) (FlatBuffer.new.write longHeader)
    (by decide)
  rw [if_neg (by decide), if_neg (by decide)] at hheader
  have hlen : (headerOf (FlatBuffer.new.write longHeader).data).getPayloadLength = 4097 := by
    decide +kernel
  refine (@recvProtocolOn_null_iff m 4096 (fun _ => .recvmsg 64) _ (by decide) (by decide) ?_).mpr
    ⟨_, _, ⟨⟨bt, by rw [hread]; exact hheader⟩, rfl⟩, by rw [hlen]; decide, nofun⟩
  rintro msg c' ⟨⟨f, hf⟩, -⟩
  rw [hread] at hf
  cases hheader.symm.trans hf
  rw [hlen]
  exact ⟨by decide, by decide, fun hlt => absurd hlt (by decide)⟩

end XzmjxRpc
