import XzmjxRpc.Net.Stream
import XzmjxRpc.Rpc.Protocol

/-!
# XzmjxRpc.Rpc.Session

`RpcSession::recvProtocol` (`rpc/rpc_session.cpp`).

The function is parameterised by the `readFixedSize` of the stream it is a
member of: `readFixedSize cut` is the loop of the source on a transport,
`readExact` is the loop as it is meant to be, on the bytes alone.  What
is proved here is `recvMany_eq_of_fits`: on a transport none of whose receives
returns more than its loop still needs, what is received depends on the bytes
only.  `XzmjxRpc.Rpc.Session.RoundTrip` and the modules after it are about
what was sent.
-/

namespace XzmjxRpc

section
variable [Machine]

/-! ## recvProtocol -/

/-- `recvProtocol` from the result `n` of reading the header into `bt` on: null
for a closed or failed stream and for a foreign magic or version, otherwise
the message so far and the buffer after the header. -/
def recvHeader (n : Int) (bt : FlatBuffer Byte) :
    Except Fault (Option (Protocol × FlatBuffer Byte)) :=
  if n = 0 then .ok none
  else if n < 0 then .ok none
  else
    match bt.rewind.run (Protocol.decodeHeader {}) with
    | .error e => .error e
    | .ok (msg, bt) =>
        if msg.magic ≠ Protocol.kMagic then .ok none
        else if msg.version ≠ Protocol.kDefaultVersion then .ok none
        else .ok (some (msg, bt))

/-- `recvProtocol` from the result `n` of reading the body into `bt` on. -/
def recvBody (msg : Protocol) (n : Int) (bt : FlatBuffer Byte) : Except Fault (Option Protocol) :=
  if n ≤ 0 then .ok none
  else if msg.carryMsg then
    match bt.rewind.run readStringVint with
    | .error e => .error e
    | .ok (text, bt) => .ok (some { msg.setErrMsg text with payload := bt.toString })
  else .ok (some { msg with payload := bt.rewind.toString })

section
variable {σ : Type} (readFixedSize : FlatBuffer Byte → Nat → σ → Int × FlatBuffer Byte × σ)

/-- `recvProtocol` after its second read, which gave `out`. -/
def recvFinish (msg : Protocol) (out : Int × FlatBuffer Byte × σ) :
    Except Fault (Option Protocol) × σ :=
  (recvBody msg out.1 out.2.1, out.2.2)

/-- `recvProtocol` after its first read, which gave `out`. -/
def recvRest (out : Int × FlatBuffer Byte × σ) : Except Fault (Option Protocol) × σ :=
  match recvHeader out.1 out.2.1 with
  | .error e => (.error e, out.2.2)
  | .ok none => (.ok none, out.2.2)
  | .ok (some (msg, bt)) =>
      if msg.getPayloadLength ≠ 0 then
        recvFinish msg (readFixedSize bt.clear msg.getPayloadLength.toNat out.2.2)
      else (.ok (some msg), out.2.2)

/-- `recvProtocol()`: the message, null (`none`) or the exception that leaves
it, and the stream after it. -/
def recvProtocol (s : σ) : Except Fault (Option Protocol) × σ :=
  recvRest readFixedSize (readFixedSize .new Protocol.kHeaderLen s)

/-- `n` successive calls of `recvProtocol` and what each of them gave. -/
def recvMany : Nat → σ → List (Except Fault (Option Protocol)) × σ
  | 0, s => ([], s)
  | n + 1, s =>
      let out := recvProtocol readFixedSize s
      let outs := recvMany n out.2
      (out.1 :: outs.1, outs.2)

end

/-! ## how recvProtocol goes on after its header

Rewrite rules: unfolding in place would make the kernel evaluate the length
arithmetic on a symbolic length. -/

section
variable {σ : Type} {readFixedSize : FlatBuffer Byte → Nat → σ → Int × FlatBuffer Byte × σ}
  {out : Int × FlatBuffer Byte × σ}

theorem recvRest_error {e : Fault} (h : recvHeader out.1 out.2.1 = .error e) :
    recvRest readFixedSize out = (.error e, out.2.2) := by
  rw [recvRest, h]

theorem recvRest_none (h : recvHeader out.1 out.2.1 = .ok none) :
    recvRest readFixedSize out = (.ok none, out.2.2) := by
  rw [recvRest, h]

theorem recvRest_empty {msg : Protocol} {bt : FlatBuffer Byte}
    (h : recvHeader out.1 out.2.1 = .ok (some (msg, bt))) (hlen : msg.getPayloadLength = 0) :
    recvRest readFixedSize out = (.ok (some msg), out.2.2) := by
  rw [recvRest, h]
  exact if_neg (not_not_intro hlen)

theorem recvRest_body {msg : Protocol} {bt : FlatBuffer Byte}
    (h : recvHeader out.1 out.2.1 = .ok (some (msg, bt))) (hlen : msg.getPayloadLength ≠ 0) :
    recvRest readFixedSize out =
      recvFinish msg (readFixedSize bt.clear msg.getPayloadLength.toNat out.2.2) := by
  rw [recvRest, h]
  exact if_pos hlen

theorem recvFinish_fst {msg : Protocol} : (recvFinish msg out).1 = recvBody msg out.1 out.2.1 := rfl

theorem recvFinish_snd {msg : Protocol} : (recvFinish msg out).2 = out.2.2 := rfl

end

/-! ## fragmentation -/

section
variable {cut : Nat → Int}

/-- If all receives fitted after `recvProtocol`, they did when its header was read. -/
theorem fits_of_recvRest {out : Int × FlatBuffer Byte × Conn}
    (h : (recvRest (readFixedSize cut) out).2.Fits) : out.2.2.Fits := by
  cases hheader : recvHeader out.1 out.2.1 with
  | error e => rwa [recvRest_error hheader] at h
  | ok o =>
      cases o with
      | none => rwa [recvRest_none hheader] at h
      | some p =>
          by_cases hlen : p.1.getPayloadLength = 0
          · rwa [recvRest_empty hheader hlen] at h
          · rw [recvRest_body hheader hlen, recvFinish_snd] at h
            exact fits_of_readFixedSize h

/-- From the same header on, while every receive fits, the rest of
`recvProtocol` is a function of the bytes. -/
theorem recvRest_eq (hcut : ∀ i, 0 < cut i) {out : Int × FlatBuffer Byte × Conn}
    {ex : Int × FlatBuffer Byte × Bytes} (hn : ex.1 = out.1) (hbt : ex.2.1 = out.2.1)
    (hs : ex.2.2 = out.2.2.stream) (hfit : (recvRest (readFixedSize cut) out).2.Fits) :
    (recvRest (readFixedSize cut) out).1 = (recvRest readExact ex).1 ∧
    (recvRest (readFixedSize cut) out).2.stream = (recvRest readExact ex).2 := by
  cases hheader : recvHeader out.1 out.2.1 with
  | error e =>
      rw [recvRest_error hheader, recvRest_error (by rw [hn, hbt, hheader])]
      exact ⟨rfl, hs.symm⟩
  | ok o =>
      cases o with
      | none =>
          rw [recvRest_none hheader, recvRest_none (by rw [hn, hbt, hheader])]
          exact ⟨rfl, hs.symm⟩
      | some p =>
          have hheader' : recvHeader ex.1 ex.2.1 = .ok (some p) := by rw [hn, hbt, hheader]
          by_cases hlen : p.1.getPayloadLength = 0
          · rw [recvRest_empty hheader hlen, recvRest_empty hheader' hlen]
            exact ⟨rfl, hs.symm⟩
          · rw [recvRest_body hheader hlen, recvFinish_snd] at hfit
            obtain ⟨hfst, hsnd, hstream⟩ := readFixedSize_eq hcut hfit
            rw [recvRest_body hheader hlen, recvRest_body hheader' hlen, recvFinish_fst,
              recvFinish_fst, recvFinish_snd, recvFinish_snd, hs, hfst, hsnd, hstream]
            exact ⟨rfl, rfl⟩

/-- While every receive fits, `recvProtocol` is a function of the bytes. -/
theorem recvProtocol_eq (hcut : ∀ i, 0 < cut i) {c : Conn}
    (hfit : (recvProtocol (readFixedSize cut) c).2.Fits) :
    c.Fits ∧
    (recvProtocol (readFixedSize cut) c).1 = (recvProtocol readExact c.stream).1 ∧
    (recvProtocol (readFixedSize cut) c).2.stream = (recvProtocol readExact c.stream).2 := by
  rw [recvProtocol] at hfit
  have hheader := fits_of_recvRest hfit
  obtain ⟨hfst, hsnd, hstream⟩ := readFixedSize_eq hcut hheader
  refine ⟨fits_of_readFixedSize hheader, ?_⟩
  rw [recvProtocol, recvProtocol]
  exact recvRest_eq hcut hfst.symm hsnd.symm hstream.symm hfit

theorem recvMany_eq (hcut : ∀ i, 0 < cut i) {n : Nat} {c : Conn}
    (hfit : (recvMany (readFixedSize cut) n c).2.Fits) :
    c.Fits ∧ (recvMany (readFixedSize cut) n c).1 = (recvMany readExact n c.stream).1 := by
  induction n generalizing c with
  | zero => exact ⟨hfit, rfl⟩
  | succ n ih =>
      rw [recvMany] at hfit
      obtain ⟨hfit₁, hrest⟩ := ih hfit
      obtain ⟨hc, hfst, hstream⟩ := recvProtocol_eq hcut hfit₁
      refine ⟨hc, ?_⟩
      rw [recvMany, recvMany, hrest, hfst, hstream]

/-- **Fragmentation**: on two transports that deliver the same bytes in pieces
none of which is larger than what its loop still needs, any number of
`recvProtocol` calls give the same results. -/
theorem recvMany_eq_of_fits {cut₁ cut₂ : Nat → Int} (h₁ : ∀ i, 0 < cut₁ i) (h₂ : ∀ i, 0 < cut₂ i)
    (n : Nat) (stream : Bytes)
    (hfit₁ : (recvMany (readFixedSize cut₁) n { stream := stream }).2.Fits)
    (hfit₂ : (recvMany (readFixedSize cut₂) n { stream := stream }).2.Fits) :
    (recvMany (readFixedSize cut₁) n { stream := stream }).1 =
      (recvMany (readFixedSize cut₂) n { stream := stream }).1 := by
  rw [(recvMany_eq h₁ hfit₁).2, (recvMany_eq h₂ hfit₂).2]

end

end

/-- The bytes of a heartbeat. -/
def heartbeatBytes : Bytes := [0xfc, 0x10, 7, 2] ++ List.replicate 16 0

/-- Two heartbeats whose first receive returns 15 bytes: the second one asks
for 20 again and swallows the head of the second heartbeat. -/
theorem recvMany_short_first_receive :
    letI := x86_64
    ∃ cut₁ cut₂ : Nat → Int, (∀ i, 0 < cut₁ i) ∧ (∀ i, 0 < cut₂ i) ∧
      (recvMany (readFixedSize cut₁) 2 { stream := heartbeatBytes ++ heartbeatBytes }).1 ≠
        (recvMany (readFixedSize cut₂) 2 { stream := heartbeatBytes ++ heartbeatBytes }).1 := by
  refine ⟨fun i => if i = 0 then 15 else 100, fun _ => 100, ?_, ?_, ?_⟩
  · intro i
    by_cases h : i = 0 <;> simp [h]
  · intro i
    exact Int.ofNat_lt.mpr (by decide : 0 < 100)
  · decide +kernel

/-- Byte by byte and all at once, two heartbeats are received alike. -/
theorem recvMany_eq_of_fits_single_bytes :
    letI := x86_64
    (recvMany (readFixedSize fun _ => 1) 2 { stream := heartbeatBytes ++ heartbeatBytes }).1 =
      (recvMany (readFixedSize fun _ => 100) 2 { stream := heartbeatBytes ++ heartbeatBytes }).1 :=
  @recvMany_eq_of_fits x86_64 _ _ (fun _ => Int.one_pos) (fun _ => Int.ofNat_lt.mpr (by decide)) 2 _
    (by decide +kernel) (by decide +kernel)

end XzmjxRpc
