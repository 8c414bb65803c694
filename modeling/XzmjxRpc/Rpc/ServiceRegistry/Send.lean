import XzmjxRpc.Rpc.ServiceRegistry

/-!
# XzmjxRpc.Rpc.ServiceRegistry.Send

Which answers of the registry leave it.

`encode` takes the length of the error text off the length of the payload, so
an answer with a text longer than its payload is read past its end
(`Protocol.exists_encode_create_iff`).  A failed registration has no payload,
and the answer to an unknown name has the one byte of an empty list: neither
of these is ever sent, and the attempt ends the session loop
(`answerable_of_sendAnswer`).
-/

namespace XzmjxRpc
namespace Registry

section
variable [Machine]

/-! ## the name in a request -/

/-- The request carries this name. -/
def Names (req : Protocol) (name : Bytes) : Prop :=
  ∃ s, Serializer.get (Serializer.ofString req.payload) .string ([] : Bytes) = .ok (name, s)

theorem Names.unique {req : Protocol} {name name' : Bytes} (h : Names req name)
    (h' : Names req name') : name = name' := by
  obtain ⟨s, hs⟩ := h
  obtain ⟨s', hs'⟩ := h'
  rw [hs] at hs'
  cases hs'
  rfl

/-- What `readStringVint` takes off the payload is the name. -/
theorem names_of_readStringVint {req : Protocol} {name rest : Bytes}
    (h : readStringVint req.payload = .ok (name, rest)) : Names req name := by
  obtain ⟨s, hs, -⟩ := Serializer.get_string h
  exact ⟨s, hs⟩

/-- A request carries a name exactly when its payload starts with a string. -/
theorem exists_names_iff {req : Protocol} : (∃ name, Names req name) ↔ HoldsString req.payload := by
  rw [← exists_readStringVint_iff]
  constructor
  · rintro ⟨name, s, hs⟩
    by_contra hread
    obtain ⟨e, -, herr⟩ :=
      Serializer.get_string_error (mt exists_readStringVint_iff.mpr hread)
    cases herr.symm.trans hs
  · rintro ⟨name, rest, hread⟩
    exact ⟨name, names_of_readStringVint hread⟩

theorem Names.length_le {req : Protocol} {name : Bytes} (h : Names req name) :
    name.length ≤ req.payload.length := by
  obtain ⟨name', rest, hread⟩ := exists_readStringVint_iff.mpr (exists_names_iff.mp ⟨name, h⟩)
  cases h.unique (names_of_readStringVint hread)
  exact length_le_of_readStringVint hread

omit [Machine] in
theorem not_holdsString_nil : ¬ HoldsString [] := by
  rintro ⟨len, rest, hlen, -⟩
  cases hlen

theorem Names.payload_ne_nil {req : Protocol} {name : Bytes} (h : Names req name) :
    req.payload ≠ [] := by
  intro hnil
  have hholds := exists_names_iff.mp ⟨name, h⟩
  rw [hnil] at hholds
  exact not_holdsString_nil hholds

/-! ## the answers -/

/-- A registration whose payload starts with a name. -/
theorem handleRegisterService_of_names (r : Registry) (addr : Bytes) {req : Protocol}
    {service : Bytes} (h : Names req service) :
    r.handleRegisterService addr req =
      (.create .kRpcServiceRegisterResponse { code := .kRpcSuccess } [] req.seq,
        r.add service addr) := by
  obtain ⟨s, hs⟩ := h
  rw [handleRegisterService, if_neg (Names.payload_ne_nil ⟨s, hs⟩), hs]

/-- One whose payload does not, and is not empty. -/
theorem handleRegisterService_of_not_holdsString (r : Registry) (addr : Bytes) {req : Protocol}
    (hne : req.payload ≠ []) (h : ¬ HoldsString req.payload) :
    r.handleRegisterService addr req =
      (.create .kRpcServiceRegisterResponse
        ⟨.kRpcProtocolFormatError, text "cannot parse msg content"⟩ [] req.seq, r) := by
  obtain ⟨e, -, herr⟩ := Serializer.get_string_error h
  rw [handleRegisterService, if_neg hne, herr]

theorem discoverName_of_names {req : Protocol} {name : Bytes} (h : Names req name) :
    discoverName req = (name, {}) := by
  obtain ⟨s, hs⟩ := h
  rw [discoverName, hs]

theorem discoverName_of_not_holdsString {req : Protocol} (h : ¬ HoldsString req.payload) :
    discoverName req =
      ([], ⟨.kRpcNoMethod, text "service discover with unknown name format"⟩) := by
  obtain ⟨e, -, herr⟩ := Serializer.get_string_error h
  rw [discoverName, herr]

/-- The answer for a name without providers. -/
theorem handleServiceDiscover_of_nil {r : Registry} {req : Protocol}
    (h : r.providers (discoverName req).1 = []) :
    r.handleServiceDiscover req = .create .kRpcServiceDiscoverResponse
      ⟨.kRpcNoMethod, text "service discover with unregister name:" ++ (discoverName req).1⟩
      (serializeSeq writeStringVint ([] : List Bytes)) req.seq := by
  simp only [handleServiceDiscover, h, if_pos]

/-- The answer for one with providers: the text of a payload that did not
decode is still there. -/
theorem handleServiceDiscover_of_ne_nil {r : Registry} {req : Protocol}
    (h : r.providers (discoverName req).1 ≠ []) :
    r.handleServiceDiscover req = .create .kRpcServiceDiscoverResponse
      ⟨.kRpcSuccess, (discoverName req).2.msg⟩
      (serializeSeq writeStringVint (r.providers (discoverName req).1)) req.seq := by
  simp only [handleServiceDiscover, if_neg h]

/-! ## sending them -/

theorem sendAnswer_eq_ok_iff {rsp : Protocol} :
    sendAnswer (some rsp) = .ok () ↔ ∃ bt, rsp.encode = .ok bt := by
  rw [sendAnswer]
  cases rsp.encode <;> simp

/-- What is not sent leaves the loop as an exception. -/
theorem sendAnswer_of_ne_ok {rsp : Option Protocol} (h : sendAnswer rsp ≠ .ok ()) :
    ∃ e, sendAnswer rsp = .error (.uncaught e) := by
  cases rsp with
  | none => exact absurd rfl h
  | some rsp =>
      rw [sendAnswer] at h ⊢
      cases hencode : rsp.encode with
      | error e => exact ⟨e, rfl⟩
      | ok bt => simp [hencode] at h

theorem sendAnswer_create_iff {type : MsgType} {ctx : Context} {content : Bytes}
    {id : BitVec 64} (h : ctx.msg.length < 2 ^ 64 - 1) :
    sendAnswer (some (.create type ctx content id)) = .ok () ↔
      ctx.msg.length ≤ content.length :=
  sendAnswer_eq_ok_iff.trans (Protocol.exists_encode_create_iff h)

/-- An answer without error text is sent. -/
theorem sendAnswer_create_nil {type : MsgType} {code : ErrCode} {content : Bytes}
    {id : BitVec 64} : sendAnswer (some (.create type ⟨code, []⟩ content id)) = .ok () :=
  (sendAnswer_create_iff (by simp)).mpr (Nat.zero_le _)

theorem sendAnswer_heartbeat : sendAnswer (some handleHeartbeat) = .ok () :=
  sendAnswer_eq_ok_iff.mpr (Protocol.exists_encode_iff.mpr (Nat.zero_le _))

theorem sendAnswer_handleRegisterService_iff (r : Registry) (addr : Bytes) (req : Protocol) :
    sendAnswer (some (r.handleRegisterService addr req).1) = .ok () ↔
      req.payload = [] ∨ HoldsString req.payload := by
  by_cases hnil : req.payload = []
  · rw [handleRegisterService, if_pos hnil]
    exact iff_of_true sendAnswer_create_nil (.inl hnil)
  · rw [or_iff_right hnil]
    by_cases hholds : HoldsString req.payload
    · obtain ⟨service, hservice⟩ := exists_names_iff.mpr hholds
      rw [handleRegisterService_of_names r addr hservice]
      exact iff_of_true sendAnswer_create_nil hholds
    · rw [handleRegisterService_of_not_holdsString r addr hnil hholds]
      refine iff_of_false ?_ hholds
      rw [sendAnswer_create_iff (by decide)]
      decide

/-- The list for the empty name makes up for the text of a payload that did not
decode, or there is no such text. -/
theorem sendAnswer_handleServiceDiscover {r : Registry} {req : Protocol}
    (h : (∃ name, Names req name ∧ r.providers name ≠ []) ∨
      (¬ HoldsString req.payload ∧
        41 ≤ (serializeSeq writeStringVint (r.providers [])).length)) :
    sendAnswer (some (r.handleServiceDiscover req)) = .ok () := by
  rcases h with ⟨name, hname, hne⟩ | ⟨hnot, hle⟩
  · have hdiscover := discoverName_of_names hname
    rw [handleServiceDiscover_of_ne_nil (by rw [hdiscover]; exact hne), hdiscover]
    exact sendAnswer_create_nil
  · have hdiscover := discoverName_of_not_holdsString hnot
    have hne : r.providers [] ≠ [] := by
      intro hnil
      rw [hnil] at hle
      exact absurd hle (by decide)
    rw [handleServiceDiscover_of_ne_nil (by rw [hdiscover]; exact hne), hdiscover]
    exact (sendAnswer_create_iff (by decide)).mpr hle

/-- The answer for a name without providers is never sent; its text is counted
in 64 bits. -/
theorem not_sendAnswer_handleServiceDiscover {r : Registry} {req : Protocol}
    (hlen : req.payload.length < 2 ^ 63) (h : r.providers (discoverName req).1 = []) :
    sendAnswer (some (r.handleServiceDiscover req)) ≠ .ok () := by
  have hname : (discoverName req).1.length ≤ req.payload.length := by
    by_cases hholds : HoldsString req.payload
    · obtain ⟨name, hname⟩ := exists_names_iff.mpr hholds
      rw [discoverName_of_names hname]
      exact hname.length_le
    · rw [discoverName_of_not_holdsString hholds]
      exact Nat.zero_le _
  have htext : (text "service discover with unregister name:" ++ (discoverName req).1).length =
      38 + (discoverName req).1.length := by
    rw [List.length_append]
    rfl
  have hlist : (serializeSeq writeStringVint ([] : List Bytes)).length = 1 := by decide
  rw [handleServiceDiscover_of_nil h, ne_eq, sendAnswer_create_iff (by rw [htext]; omega), htext,
    hlist]
  omega

theorem sendAnswer_handleServiceDiscover_iff {r : Registry} {req : Protocol}
    (hlen : req.payload.length < 2 ^ 63) :
    sendAnswer (some (r.handleServiceDiscover req)) = .ok () ↔
      (∃ name, Names req name ∧ r.providers name ≠ []) ∨
        (¬ HoldsString req.payload ∧
          41 ≤ (serializeSeq writeStringVint (r.providers [])).length) := by
  refine ⟨fun hsend => ?_, sendAnswer_handleServiceDiscover⟩
  have hne : r.providers (discoverName req).1 ≠ [] := fun hnil =>
    not_sendAnswer_handleServiceDiscover hlen hnil hsend
  by_cases hholds : HoldsString req.payload
  · obtain ⟨name, hname⟩ := exists_names_iff.mpr hholds
    rw [discoverName_of_names hname] at hne
    exact .inl ⟨name, hname, hne⟩
  · rw [handleServiceDiscover_of_ne_nil hne, discoverName_of_not_holdsString hholds,
      sendAnswer_create_iff (by decide)] at hsend
    exact .inr ⟨hholds, hsend⟩

/-- Only two kinds of answers can fail to be sent. -/
theorem sendAnswer_dispatch_eq_ok_iff {peer : Option IPv4Address} {req : Protocol} {l : Locals}
    {r : Registry} {out : Option Protocol × Locals × Registry}
    (h : dispatch peer req l r = .ok out) :
    sendAnswer out.1 = .ok () ↔
      (req.type = .kRpcServiceRegisterRequest → req.payload = [] ∨ HoldsString req.payload) ∧
        (req.type = .kRpcServiceDiscoverRequest →
          sendAnswer (some (r.handleServiceDiscover req)) = .ok ()) := by
  by_cases hregister : req.type = .kRpcServiceRegisterRequest
  · rw [dispatch, if_neg (by rw [hregister]; decide), if_neg (by rw [hregister]; decide),
      if_neg (by rw [hregister]; decide), if_pos hregister] at h
    have hout : some (r.handleRegisterService l.providerAddr req).1 = out.1 :=
      congrArg (·.1) (Except.ok.inj h)
    rw [← hout, sendAnswer_handleRegisterService_iff]
    exact ⟨fun hcond => ⟨fun _ => hcond, by rw [hregister]; nofun⟩, fun hcond => hcond.1 hregister⟩
  by_cases hdiscover : req.type = .kRpcServiceDiscoverRequest
  · rw [dispatch, if_neg (by rw [hdiscover]; decide), if_pos hdiscover] at h
    cases h
    exact ⟨fun hsend => ⟨fun htype => absurd htype hregister, fun _ => hsend⟩,
      fun hcond => hcond.2 hdiscover⟩
  -- a heartbeat is answered by another one, and anything else not at all
  refine iff_of_true ?_ ⟨fun htype => absurd htype hregister, fun htype => absurd htype hdiscover⟩
  rw [dispatch, if_neg hdiscover, if_neg hregister] at h
  split at h
  · cases h
    exact sendAnswer_heartbeat
  · split at h
    · split at h <;> cases h
      rfl
    · cases h
      rfl

/-- The answer to the request can be sent. -/
structure Answerable (r : Registry) (req : Protocol) : Prop where
  /-- A registration has a payload without a name only when it has none. -/
  register : req.type = .kRpcServiceRegisterRequest →
    req.payload = [] ∨ HoldsString req.payload
  /-- A discovery is for a name with providers; or it is for no name, and the
  list for the empty one makes up for the 41 characters of the text. -/
  discover : req.type = .kRpcServiceDiscoverRequest →
    (∃ name, Names req name ∧ r.providers name ≠ []) ∨
      (¬ HoldsString req.payload ∧
        41 ≤ (serializeSeq writeStringVint (r.providers [])).length)

/-- **The answer** of a round is sent when it can be. -/
theorem sendAnswer_of_answerable {peer : Option IPv4Address} {req : Protocol} {l : Locals}
    {r : Registry} {out : Option Protocol × Locals × Registry}
    (h : dispatch peer req l r = .ok out) (hanswer : Answerable r req) :
    sendAnswer out.1 = .ok () :=
  (sendAnswer_dispatch_eq_ok_iff h).mpr
    ⟨hanswer.register, fun htype => sendAnswer_handleServiceDiscover (hanswer.discover htype)⟩

/-- And only then, for a payload of a length that a `std::string` can have. -/
theorem answerable_of_sendAnswer {peer : Option IPv4Address} {req : Protocol} {l : Locals}
    {r : Registry} {out : Option Protocol × Locals × Registry}
    (hlen : req.payload.length < 2 ^ 63) (h : dispatch peer req l r = .ok out)
    (hsend : sendAnswer out.1 = .ok ()) : Answerable r req := by
  obtain ⟨hregister, hdiscover⟩ := (sendAnswer_dispatch_eq_ok_iff h).mp hsend
  exact ⟨hregister, fun htype => (sendAnswer_handleServiceDiscover_iff hlen).mp (hdiscover htype)⟩

end

end Registry
end XzmjxRpc
