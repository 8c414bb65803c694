import XzmjxRpc.Rpc.ServiceRegistry.Disconnect

/-!
# XzmjxRpc.Rpc.ServiceRegistry.Announce

One message of an IPv4 peer, whatever it is.

`handleProvider` is the one handler that decodes outside of a `try`, so an
announcement without a number ends the session loop with an exception, and so
does an answer that cannot be encoded (`handleClient_uncaught_iff`).  The
number that `handleProvider` decodes has 32 bits, and `setPort` takes 16 of
them: the recorded port is the announced one only below `2 ^ 16`
(`handledRight_iff`).
-/

namespace XzmjxRpc
namespace Registry

open IPv4Address

section
variable [Machine]

/-! ## one announcement -/

/-- The message is no announcement, or it starts with a number. -/
def HoldsPort (req : Protocol) : Prop :=
  req.type = .kRpcServiceProvider → ∃ port rest, readUint32 req.payload = .ok (port, rest)

/-- An announcement of an IPv4 peer that holds a number. -/
theorem handleProvider_of_ok (peer : IPv4Address) {req : Protocol} {port : BitVec 32}
    {rest : Bytes} (h : readUint32 req.payload = .ok (port, rest)) :
    handleProvider (some peer) req = .ok (peer.setPort (port.setWidth 16)).toString := by
  have hdes : deserialize .uint32 (0 : BitVec 32) req.payload = .ok (port, rest) := h
  obtain ⟨s, hs, -⟩ := Serializer.get_ofString hdes
  unfold handleProvider
  split
  · next e he => cases he.symm.trans hs
  · next p s' hp =>
    cases hp.symm.trans hs
    rfl

/-- Decoding any other one throws. -/
theorem handleProvider_of_error (peer : Option IPv4Address) {req : Protocol} {e : Fault}
    (h : readUint32 req.payload = .error e) :
    handleProvider peer req = .error (.uncaught FlatBuffer.outOfData) := by
  have hdes : deserialize .uint32 (0 : BitVec 32) req.payload = .error e := h
  obtain ⟨-, herr⟩ := Serializer.get_ofString_error hdes
  rw [scans_readUint32.fails _ e h] at herr
  unfold handleProvider
  split
  · next e' he =>
    cases he.symm.trans herr
    rfl
  · next p s hp => cases hp.symm.trans herr

/-- The round of an announcement. -/
theorem handleMessage_of_provider (peer : Option IPv4Address) {req : Protocol}
    (h : req.type = .kRpcServiceProvider) (l : Locals) (r : Registry) :
    handleMessage peer req l r =
      (handleProvider peer req).map fun addr => (none, ⟨true, addr⟩, r) := by
  rw [handleMessage, dispatch, if_neg (by rw [h]; decide), if_neg (by rw [h]; decide), if_pos h]
  cases handleProvider peer req <;> rfl

/-- **One round** of a session with an IPv4 peer: it goes through for anything
but an announcement without a number and a message whose answer cannot be sent. -/
theorem handleMessage_returns_iff (peer : IPv4Address) {req : Protocol}
    (hlen : req.payload.length < 2 ^ 63) (l : Locals) (r : Registry) :
    (∃ out, handleMessage (some peer) req l r = .ok out) ↔
      HoldsPort req ∧ Answerable r req := by
  constructor
  · rintro ⟨out, hout⟩
    obtain ⟨hdispatch, hsend⟩ := handleMessage_eq_ok_iff.mp hout
    refine ⟨fun htype => ?_, answerable_of_sendAnswer hlen hdispatch hsend⟩
    cases hread : readUint32 req.payload with
    | error e =>
        rw [handleMessage_of_provider _ htype, handleProvider_of_error _ hread] at hout
        cases hout
    | ok p => exact ⟨p.1, p.2, rfl⟩
  · rintro ⟨hport, hanswer⟩
    have haccepted (htype : req.type = .kRpcServiceProvider) :
        (announcedAddr (some peer) req).isSome := by
      obtain ⟨port, rest, hread⟩ := hport htype
      rw [announcedAddr, if_pos htype, handleProvider_of_ok peer hread]
      rfl
    obtain ⟨rsp, hrsp⟩ := handleMessage_eq l haccepted hanswer
    exact ⟨_, hrsp⟩

/-- Such a peer has an address, so what ends a round is an exception. -/
theorem handleMessage_error_uncaught {peer : IPv4Address} {req : Protocol} {l : Locals}
    {r : Registry} {c : Crash} (h : handleMessage (some peer) req l r = .error c) :
    ∃ e, c = .uncaught e := by
  unfold handleMessage at h
  cases hdispatch : dispatch (some peer) req l r with
  | error c' =>
      -- only an announcement is refused, and for its payload
      have hprovider : handleProvider (some peer) req = .error c' := by
        unfold dispatch at hdispatch
        grind
      rw [hdispatch] at h
      cases h
      unfold handleProvider at hprovider
      split at hprovider
      · cases hprovider
        exact ⟨_, rfl⟩
      · cases hprovider
  | ok out =>
      rw [hdispatch] at h
      simp only [bind, Except.bind] at h
      cases hsend : sendAnswer out.1 with
      | ok _ => simp [hsend, pure, Except.pure] at h
      | error c' =>
          have hne : sendAnswer out.1 ≠ .ok () := by simp [hsend]
          obtain ⟨e, he⟩ := sendAnswer_of_ne_ok hne
          rw [he] at h
          cases h
          exact ⟨e, rfl⟩

/-! ## the session loop -/

omit [Machine] in
/-- Nothing throws at the end of the stream. -/
theorem handleEnd_ne_uncaught (l : Locals) (r : Registry) (e : Fault) :
    handleEnd l r ≠ .error (.uncaught e) := by
  unfold handleEnd unregisterService
  split
  · split
    · nofun
    · split <;> nofun
  · nofun

theorem handleRounds_uncaught_iff (peer : IPv4Address) {msgs : List Protocol}
    (hlen : ∀ req ∈ msgs, req.payload.length < 2 ^ 63) (l : Locals) (r : Registry) :
    (∃ e, handleRounds (some peer) msgs l r = .error (.uncaught e)) ↔
      ¬ ((∀ req ∈ msgs, HoldsPort req) ∧ Answered (some peer) msgs l r) := by
  induction msgs generalizing l r with
  | nil =>
      refine iff_of_false ?_ (not_not.mpr ⟨by simp, trivial⟩)
      rintro ⟨e, he⟩
      rw [handleRounds] at he
      cases hend : handleEnd l r with
      | error c =>
          rw [hend] at he
          cases he
          exact handleEnd_ne_uncaught l r e hend
      | ok r' =>
          rw [hend] at he
          cases he
  | cons req msgs ih =>
      have hreturns := handleMessage_returns_iff peer (hlen req List.mem_cons_self) l r
      cases hone : handleMessage (some peer) req l r with
      | error c =>
          obtain ⟨e, rfl⟩ := handleMessage_error_uncaught hone
          refine iff_of_true ⟨e, by simp only [handleRounds, hone, bind, Except.bind]⟩ ?_
          rintro ⟨hports, hanswers⟩
          obtain ⟨out, hout⟩ := hreturns.mpr ⟨hports req List.mem_cons_self, hanswers.1⟩
          cases hone.symm.trans hout
      | ok out =>
          obtain ⟨rsp, l', r'⟩ := out
          obtain ⟨hport, hanswer⟩ := hreturns.mp ⟨_, hone⟩
          obtain ⟨-, rfl, rfl⟩ := handleMessage_inv hone
          rw [List.forall_mem_cons, and_iff_right hport, Answered, and_iff_right hanswer,
            ← ih (fun req' hreq' => hlen req' (List.mem_cons_of_mem _ hreq'))]
          simp only [handleRounds, hone, bind, Except.bind]
          cases handleRounds (some peer) msgs (localsAfter (some peer) req l)
            (r.addAll (added req l)) <;> simp [pure, Except.pure]

/-- **The session loop** of an IPv4 peer is left by an exception exactly when
some announcement holds no number or some answer cannot be sent. -/
theorem handleClient_uncaught_iff (peer : IPv4Address) {msgs : List Protocol}
    (hlen : ∀ req ∈ msgs, req.payload.length < 2 ^ 63) (r : Registry) :
    (∃ e, handleClient (some peer) msgs r = .error (.uncaught e)) ↔
      ¬ ((∀ req ∈ msgs, HoldsPort req) ∧ Answered (some peer) msgs {} r) :=
  handleRounds_uncaught_iff peer hlen {} r

/-! ## the recorded port -/

/-- A message of an IPv4 peer is handled as it should be. -/
structure HandledRight (peer : IPv4Address) (req : Protocol) (l : Locals) (r : Registry) :
    Prop where
  /-- No exception leaves the session loop. -/
  returns : ∃ out, handleMessage (some peer) req l r = .ok out
  /-- The port in the address of an accepted provider is the announced number. -/
  port : ∀ rsp l' r' port rest, req.type = .kRpcServiceProvider →
    handleMessage (some peer) req l r = .ok (rsp, l', r') →
    readUint32 req.payload = .ok (port, rest) → portText l'.providerAddr = decimal port.toNat

/-- The port that is recorded for an announced number. -/
theorem portText_setPort (peer : IPv4Address) (port : BitVec 32) :
    portText (peer.setPort (port.setWidth 16)).toString = decimal (port.toNat % 2 ^ 16) := by
  rw [portText_toString, getPort_setPort, BitVec.toNat_setWidth_of_le (by decide),
    BitVec.toNat_setWidth]

/-- **Any message**, in any state of the session and the registry, is handled
as it should be exactly when it is no announcement, or it holds a number below
`2 ^ 16`, and its answer can be sent. -/
theorem handledRight_iff (peer : IPv4Address) {req : Protocol}
    (hlen : req.payload.length < 2 ^ 63) (l : Locals) (r : Registry) :
    HandledRight peer req l r ↔ (req.type = .kRpcServiceProvider →
      ∃ port rest, readUint32 req.payload = .ok (port, rest) ∧ port.toNat < 2 ^ 16) ∧
        Answerable r req := by
  constructor
  · intro hright
    obtain ⟨hport, hanswer⟩ := (handleMessage_returns_iff peer hlen l r).mp hright.returns
    refine ⟨fun htype => ?_, hanswer⟩
    obtain ⟨port, rest, hread⟩ := hport htype
    have hrun := handleMessage_of_provider (some peer) htype l r
    rw [handleProvider_of_ok peer hread] at hrun
    have hport := hright.port _ _ _ port rest htype hrun hread
    have hmod := decimal_injective ((portText_setPort peer port).symm.trans hport)
    exact ⟨port, rest, hread, by rw [← hmod]; exact Nat.mod_lt _ (by decide)⟩
  · rintro ⟨hcond, hanswer⟩
    refine ⟨(handleMessage_returns_iff peer hlen l r).mpr ⟨fun htype => ?_, hanswer⟩, ?_⟩
    · obtain ⟨port, rest, hread, -⟩ := hcond htype
      exact ⟨port, rest, hread⟩
    · intro rsp l' r' port rest htype hrun hread
      obtain ⟨port', rest', hread', hlt⟩ := hcond htype
      cases hread.symm.trans hread'
      rw [handleMessage_of_provider _ htype, handleProvider_of_ok peer hread] at hrun
      cases hrun
      rw [portText_setPort, Nat.mod_eq_of_lt hlt]

end

/-- The announcement of a port. -/
theorem handledRight_iff_announce :
    letI := x86_64
    HandledRight loopback (announce 1) {} empty ↔
      ((announce 1).type = .kRpcServiceProvider →
        ∃ port rest, readUint32 (announce 1).payload = .ok (port, rest) ∧ port.toNat < 2 ^ 16) ∧
          Answerable empty (announce 1) :=
  @handledRight_iff x86_64 loopback (announce 1) (by decide) {} empty

/-- An announcement with an empty payload throws, the answer to an unknown name
cannot be encoded, and the port 65537 is recorded as port 1. -/
theorem not_handledRight_announcement :
    letI := x86_64
    (∃ peer req l r, ¬ HandledRight peer req l r ∧ req.type = .kRpcServiceProvider ∧
      req.payload = [] ∧
      handleMessage (some peer) req l r = .error (.uncaught FlatBuffer.outOfData)) ∧
    (∃ peer req l r, ¬ HandledRight peer req l r ∧ req.type = .kRpcServiceDiscoverRequest ∧
      Names req (text "s") ∧
      handleMessage (some peer) req l r = .error (.uncaught .overrun)) ∧
    ∃ peer req l r, ¬ HandledRight peer req l r ∧ req.type = .kRpcServiceProvider ∧
      readUint32 req.payload = .ok (65537, []) ∧
      (handleMessage (some peer) req l r).map (·.2.1.providerAddr) =
        .ok (text "127:0:0:1:1") := by
  let m := x86_64
  refine ⟨⟨loopback, .createSuccess .kRpcServiceProvider [] 0, {}, empty, ?_, rfl, rfl, rfl⟩,
    ⟨loopback, discoverS, {}, empty, ?_, rfl, ⟨_, rfl⟩, rfl⟩,
    loopback, .createSuccess .kRpcServiceProvider [0x81, 0x80, 0x04] 0, {}, empty, ?_, rfl,
    by decide +kernel, by decide +kernel⟩
  · intro hright
    obtain ⟨out, hout⟩ := hright.returns
    cases hout
  · intro hright
    obtain ⟨out, hout⟩ := hright.returns
    have hrun : handleMessage (some loopback) discoverS {} empty = .error (.uncaught .overrun) :=
      rfl
    cases hrun.symm.trans hout
  · intro hright
    have hport := hright.port _ _ _ 65537 [] rfl rfl (by decide +kernel)
    exact absurd hport (by decide +kernel)

end Registry
end XzmjxRpc
