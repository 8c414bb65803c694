import XzmjxRpc.Rpc.ServiceRegistry.Discover

/-!
# XzmjxRpc.Rpc.ServiceRegistry.Answer

What the registry answers, for every payload.

A payload that does not decode is treated differently by the two handlers.
`handleServiceDiscover` reports it, but goes on with the empty name, and so
answers with the providers of a service of that name (`discoversRight_iff`).
`handleRegisterService` stops, but for the empty payload, which it answers as
a success and without the request's sequence id (`registersRight_iff`).
-/

namespace XzmjxRpc
namespace Registry

section
variable [Machine]

/-! ## what is registered -/

/-- The pairs that an operation leaves of those registered before it, and the
one that it adds. -/
def liveAfter (ps : List (Bytes × Bytes)) : Op → List (Bytes × Bytes)
  | .register addr req => ps ++ ((serviceName req).map fun service => (service, addr)).toList
  | .unregister addr => ps.filter (·.2 ≠ addr)

/-- The (service, address) pairs that were registered and not removed, in the
order of their registration. -/
def live (ops : List Op) : List (Bytes × Bytes) := ops.foldl liveAfter []

/-- The addresses registered for a service. -/
def registered (ops : List Op) (service : Bytes) : List Bytes :=
  ((live ops).filter (·.1 = service)).map Prod.snd

theorem OpStep.pairs {r r' : Registry} {op : Op} (hr : r.Agree) (h : OpStep r op r') :
    r'.servicesProvider.pairs = liveAfter r.servicesProvider.pairs op := by
  cases h with
  | register addr req =>
      rw [handleRegisterService_snd, liveAfter]
      cases serviceName req with
      | none => simp
      | some service => simp [add]
  | unregister h =>
      rw [hr.unregisterService_eq] at h
      split at h <;> cases h
      exact pairs_without r _

/-- The map holds what was registered and not removed. -/
theorem pairs_of_run {ops : List Op} {r : Registry} (h : Lts.Run OpStep empty ops r) :
    r.servicesProvider.pairs = live ops := by
  induction h with
  | nil => rfl
  | snoc h hstep ih =>
      rw [hstep.pairs (agree_of_run h), ih, live, live, List.foldl_append]
      rfl

/-- So the range of a service holds its addresses. -/
theorem providers_of_run {ops : List Op} {r : Registry} (h : Lts.Run OpStep empty ops r)
    (service : Bytes) : r.providers service = registered ops service := by
  rw [providers, Multimap.map_val_equalRange, pairs_of_run h, registered]

/-! ## a discovery -/

omit [Machine] in
/-- The number of entries and the lengths of the addresses are of type `size_t`. -/
structure Sized (r : Registry) : Prop where
  length_lt : r.servicesProvider.nodes.length < 2 ^ 64
  addr_lt : ∀ n ∈ r.servicesProvider.nodes, n.val.length < 2 ^ 64

/-- A client that decodes the payload gets these addresses. -/
def Lists (rsp : Protocol) (addrs : List Bytes) : Prop :=
  deserialize (.vector .string) ([] : List Bytes) rsp.payload = .ok (addrs, [])

/-- What `<<` wrote for strings is read back as these strings. -/
theorem deserialize_strings {l : List Bytes} (hl : l.length < 2 ^ 64)
    (hs : ∀ s ∈ l, s.length < 2 ^ 64) :
    deserialize (.vector .string) ([] : List Bytes) (serializeSeq writeStringVint l) =
      .ok (l, []) := by
  obtain ⟨l, rfl⟩ : ∃ l' : List { s : Bytes // s.length < 2 ^ 64 }, l'.map Subtype.val = l :=
    ⟨l.attachWith _ hs, by rw [List.attachWith_map_subtype_val]⟩
  rw [List.length_map] at hl
  have hser : serializeSeq writeStringVint (l.map Subtype.val) =
      serializeSeq (fun s => writeStringVint s.1) l := by
    rw [serializeSeq, serializeSeq, List.length_map, List.flatMap_map]
  have hfresh : (Ty.vector .string).interp.Fresh ([] : List Bytes) := rfl
  have hround := roundTrips (.vector .string) ⟨l, hl⟩ _ hfresh []
  rw [List.append_nil] at hround
  rw [hser]
  exact hround

/-- The response lists the providers that it was made of. -/
theorem Answers.lists {r : Registry} (hr : r.Sized) {req : Protocol} {code : ErrCode}
    {name : Bytes} (h : Answers r req code (r.providers name)) :
    Lists (r.handleServiceDiscover req) (r.providers name) := by
  rw [Lists, h.payload]
  apply deserialize_strings
  · rw [providers, List.length_map]
    exact Nat.lt_of_le_of_lt (List.length_filter_le _ _) hr.length_lt
  · intro s hs
    obtain ⟨n, hn, rfl⟩ := List.mem_map.mp hs
    exact hr.addr_lt n (Multimap.mem_equalRange.mp hn).1

theorem seq_handleServiceDiscover (r : Registry) (req : Protocol) :
    (r.handleServiceDiscover req).seq = req.seq := by
  rw [handleServiceDiscover]
  exact Protocol.seq_create ..

/-- A payload that does not decode is answered as the empty name is. -/
theorem answers_of_not_holdsString (r : Registry) {req : Protocol}
    (h : ¬ HoldsString req.payload) :
    Answers r req (if r.providers [] = [] then .kRpcNoMethod else .kRpcSuccess)
      (r.providers []) := by
  exact answers_discoverName r (by rw [discoverName_of_not_holdsString h])

/-- `handleServiceDiscover(req)` answers as it should, after the operations `ops`. -/
structure DiscoversRight (r : Registry) (ops : List Op) (req : Protocol) : Prop where
  seq : (r.handleServiceDiscover req).seq = req.seq
  /-- A service with providers: they are listed, as they were registered. -/
  found : ∀ name, Names req name → registered ops name ≠ [] →
    (r.handleServiceDiscover req).errCode = .kRpcSuccess ∧
      Lists (r.handleServiceDiscover req) (registered ops name)
  /-- Anything else: an error and an empty list. -/
  missed : (∀ name, Names req name → registered ops name = []) →
    (r.handleServiceDiscover req).errCode ≠ .kRpcSuccess ∧
      Lists (r.handleServiceDiscover req) []

/-- **Discovery**, after any registrations and removals, answers as it should
exactly when the payload starts with a string, or no service is registered
under the empty name. -/
theorem discoversRight_iff {ops : List Op} {r : Registry} (h : Lts.Run OpStep empty ops r)
    (hr : r.Sized) (req : Protocol) :
    DiscoversRight r ops req ↔ HoldsString req.payload ∨ registered ops [] = [] := by
  have hproviders := providers_of_run h
  constructor
  · intro hright
    by_cases hholds : HoldsString req.payload
    · exact .inl hholds
    · right
      by_contra hne
      -- the answer is the one for the empty name, and a success
      have hanswers := answers_of_not_holdsString r hholds
      rw [hproviders, if_neg hne] at hanswers
      have hnone : ∀ name, Names req name → registered ops name = [] :=
        fun name hname => absurd (exists_names_iff.mp ⟨name, hname⟩) hholds
      exact (hright.missed hnone).1 hanswers.errCode
  · intro hcond
    by_cases hholds : HoldsString req.payload
    · obtain ⟨name, hname⟩ := exists_names_iff.mpr hholds
      have hanswers := answers_providers r hname
      have hlists := hanswers.lists hr
      rw [hproviders] at hanswers hlists
      refine ⟨seq_handleServiceDiscover r req, ?_, ?_⟩
      · intro name' hname' hne
        cases hname.unique hname'
        rw [if_neg hne] at hanswers
        exact ⟨hanswers.errCode, hlists⟩
      · intro hnone
        have hnil := hnone name hname
        rw [if_pos hnil] at hanswers
        rw [hnil] at hlists
        exact ⟨by rw [hanswers.errCode]; decide, hlists⟩
    · have hnil := hcond.resolve_left hholds
      have hanswers := answers_of_not_holdsString r hholds
      have hlists := hanswers.lists hr
      rw [hproviders, hnil] at hanswers hlists
      rw [if_pos rfl] at hanswers
      refine ⟨seq_handleServiceDiscover r req, ?_, ?_⟩
      · intro name hname
        exact absurd (exists_names_iff.mp ⟨name, hname⟩) hholds
      · intro _
        exact ⟨by rw [hanswers.errCode]; decide, hlists⟩

/-! ## a registration -/

/-- `handleRegisterService(addr, req)` answers what it did. -/
structure RegistersRight (r : Registry) (addr : Bytes) (req : Protocol) : Prop where
  seq : (r.handleRegisterService addr req).1.seq = req.seq
  /-- A success stands for one more entry in each of the maps. -/
  success_iff : (r.handleRegisterService addr req).1.errCode = .kRpcSuccess ↔
    ∃ service, Names req service ∧ (r.handleRegisterService addr req).2 =
      ⟨r.servicesProvider.emplace service addr, r.addressToService.emplace addr service⟩
  /-- Anything else for none. -/
  unchanged : (r.handleRegisterService addr req).1.errCode ≠ .kRpcSuccess →
    (r.handleRegisterService addr req).2 = r

/-- **Registration** answers what it did exactly when the payload is not empty. -/
theorem registersRight_iff (r : Registry) (addr : Bytes) (req : Protocol) :
    RegistersRight r addr req ↔ req.payload ≠ [] := by
  constructor
  · intro hright hnil
    have hrun : r.handleRegisterService addr req =
        (.createSuccess .kRpcServiceRegisterResponse [] 0, r) := by
      rw [handleRegisterService, if_pos hnil]
    -- a success without a name
    have hsuccess : (r.handleRegisterService addr req).1.errCode = .kRpcSuccess := by
      rw [hrun]
      exact Protocol.errCode_create ..
    obtain ⟨service, hname, -⟩ := hright.success_iff.mp hsuccess
    exact hname.payload_ne_nil hnil
  · intro hne
    by_cases hholds : HoldsString req.payload
    · obtain ⟨service, hname⟩ := exists_names_iff.mpr hholds
      have hrun := r.handleRegisterService_of_names addr hname
      have hcode : (r.handleRegisterService addr req).1.errCode = .kRpcSuccess := by
        rw [hrun]
        exact Protocol.errCode_create ..
      refine ⟨by rw [hrun]; exact Protocol.seq_create .., ?_, fun h => absurd hcode h⟩
      exact iff_of_true hcode ⟨service, hname, by rw [hrun]; rfl⟩
    · have hrun := r.handleRegisterService_of_not_holdsString addr hne hholds
      have hcode : (r.handleRegisterService addr req).1.errCode ≠ .kRpcSuccess := by
        rw [hrun, Protocol.errCode_create]
        decide
      refine ⟨by rw [hrun]; exact Protocol.seq_create .., iff_of_false hcode ?_, ?_⟩
      · rintro ⟨service, hname, -⟩
        exact hholds (exists_names_iff.mp ⟨service, hname⟩)
      · intro _
        rw [hrun]

end

/-! ## requests -/

/-- A request to register the service of the empty name. -/
def registerEmpty : Protocol := .createSuccess .kRpcServiceRegisterRequest [0] 0

theorem discoversRight_iff_once :
    letI := x86_64
    DiscoversRight (empty.handleRegisterService [97] registerS).2 [.register [97] registerS]
        discoverS ↔
      HoldsString discoverS.payload ∨ registered [.register [97] registerS] [] = [] :=
  @discoversRight_iff x86_64 _ _ (.single (@OpStep.register x86_64 _ _ _))
    ⟨by decide +kernel, by decide +kernel⟩ _

/-- With a service of the empty name, a payload that does not decode is
answered with its providers. -/
theorem not_discoversRight_empty_name :
    letI := x86_64
    ∃ ops r req, Lts.Run OpStep empty ops r ∧ ¬ DiscoversRight r ops req ∧
      req.payload = [] ∧ (r.handleServiceDiscover req).errCode = .kRpcSuccess ∧
      Lists (r.handleServiceDiscover req) [[97]] := by
  let m := x86_64
  have hcode : ((empty.handleRegisterService [97] registerEmpty).2.handleServiceDiscover
      (.createSuccess .kRpcServiceDiscoverRequest [] 0)).errCode = .kRpcSuccess := by
    decide +kernel
  refine ⟨_, _, .createSuccess .kRpcServiceDiscoverRequest [] 0,
    .single (.register empty [97] registerEmpty), ?_, rfl, hcode, ?_⟩
  · intro hright
    refine (hright.missed ?_).1 hcode
    rintro name ⟨s, hs⟩
    cases hs
  · rw [Lists]
    decide +kernel

/-- An empty payload: nothing is registered, and another request is answered,
with a success. -/
theorem not_registersRight_empty_payload :
    letI := x86_64
    ∃ r addr req, ¬ RegistersRight r addr req ∧ req.seq = 7 ∧
      (r.handleRegisterService addr req).1.seq = 0 ∧
      (r.handleRegisterService addr req).1.errCode = .kRpcSuccess ∧
      (r.handleRegisterService addr req).2 = r := by
  let m := x86_64
  refine ⟨empty, [97], .createSuccess .kRpcServiceRegisterRequest [] 7, ?_, rfl, rfl, rfl, rfl⟩
  intro hright
  exact absurd hright.seq (by decide)

end Registry
end XzmjxRpc
