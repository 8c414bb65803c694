import XzmjxRpc.Lib.Multimap
import XzmjxRpc.Net.Address
import XzmjxRpc.Rpc.Client

/-!
# XzmjxRpc.Rpc.ServiceRegistry

The service registry (`rpc/rpc_service_registry.h`,
`rpc/rpc_service_registry.cpp`): two multimaps, from services to the addresses
of their providers and from addresses to their services, and the session loop
`handleClient`.

The functions here are those of one session that nobody runs beside.  What
`m_rwmutex` keeps apart, and what it does not, is the subject of
`ServiceRegistry.Locked`.  What a session does where the source has no meaning,
or where an exception leaves the loop, is a `Crash`.
-/

namespace XzmjxRpc

/-- How the handling of a message ends other than by going on. -/
inductive Crash where
  /-- An exception, or a read past the end of a string, leaves `handleClient`. -/
  | uncaught (e : Fault)
  /-- `addr->setPort(port)` for a peer that has no IPv4 address. -/
  | nullAddress
  /-- `req->getType()` after the end of the stream. -/
  | nullMessage
  /-- An iterator is used whose element was erased. -/
  | deadIterator
  /-- The maps are changed while another thread uses them. -/
  | dataRace
  deriving DecidableEq, Repr

/-- `RpcServiceRegistry`: `m_services_provider` and `m_address_to_service`. -/
structure Registry where
  servicesProvider : Multimap Bytes Bytes
  addressToService : Multimap Bytes Bytes

namespace Registry

/-- A registry nothing was registered with. -/
def empty : Registry := ⟨.empty, .empty⟩

/-! ## the two maps -/

/-- The two `emplace` calls of a registration. -/
def add (r : Registry) (service addr : Bytes) : Registry where
  servicesProvider := r.servicesProvider.emplace service addr
  addressToService := r.addressToService.emplace addr service

/-- The iterators that `unregisterService` collects: for each service of the
address, those of the service's entries that have the address. -/
def del (r : Registry) (serverAddr : Bytes) : List Nat :=
  (r.addressToService.equalRange serverAddr).flatMap fun iter =>
    ((r.servicesProvider.equalRange iter.val).filter (·.val = serverAddr)).map (·.id)

/-- `unregisterService(server_addr)`. -/
def unregisterService (r : Registry) (serverAddr : Bytes) : Except Crash Registry :=
  if r.addressToService.equalRange serverAddr = [] then .ok r
  else
    match Multimap.eraseAll (r.del serverAddr) r.servicesProvider with
    | none => .error .deadIterator
    | some servicesProvider =>
        .ok ⟨servicesProvider, r.addressToService.eraseRange serverAddr⟩

section
variable [Machine]

/-! ## the handlers -/

/-- `handleProvider(session, req)`: the provider's address, made of the peer's
and the announced port, which `setPort` cuts down to 16 bits. -/
def handleProvider (peer : Option IPv4Address) (req : Protocol) : Except Crash Bytes :=
  match Serializer.get (Serializer.ofString req.payload) .uint32 (0 : BitVec 32) with
  | .error e => .error (.uncaught e)
  | .ok (port, _) =>
      match peer with
      | none => .error .nullAddress
      | some addr => .ok (addr.setPort (BitVec.setWidth 16 (port : BitVec 32))).toString

/-- `handleRegisterService(addr, req)`: the response and the registry after it. -/
def handleRegisterService (r : Registry) (addr : Bytes) (req : Protocol) : Protocol × Registry :=
  if req.payload = [] then (.createSuccess .kRpcServiceRegisterResponse [] 0, r)
  else
    match Serializer.get (Serializer.ofString req.payload) .string ([] : Bytes) with
    | .error _ =>
        (.create .kRpcServiceRegisterResponse
          ⟨.kRpcProtocolFormatError, text "cannot parse msg content"⟩ [] req.seq, r)
    | .ok (service, _) =>
        (.create .kRpcServiceRegisterResponse { code := .kRpcSuccess } [] req.seq,
          r.add service addr)

/-- `handleHeartbeat()`. -/
def handleHeartbeat : Protocol := .heartbeat

/-- The name in `handleServiceDiscover` and the context after reading it: a
payload that does not decode leaves the name empty, and the function goes on. -/
def discoverName (req : Protocol) : Bytes × Context :=
  match Serializer.get (Serializer.ofString req.payload) .string ([] : Bytes) with
  | .error _ => ([], ⟨.kRpcNoMethod, text "service discover with unknown name format"⟩)
  | .ok (name, _) => (name, {})

/-- `ret` of `handleServiceDiscover`: the addresses in the range of the name. -/
def providers (r : Registry) (name : Bytes) : List Bytes :=
  (r.servicesProvider.equalRange name).map (·.val)

/-- `handleServiceDiscover(req)`. -/
def handleServiceDiscover (r : Registry) (req : Protocol) : Protocol :=
  let (name, ctx) := discoverName req
  let ret := r.providers name
  let ctx :=
    if ret = [] then ⟨.kRpcNoMethod, text "service discover with unregister name:" ++ name⟩
    else { ctx with code := .kRpcSuccess }
  .create .kRpcServiceDiscoverResponse ctx (serializeSeq writeStringVint ret) req.seq

/-! ## the session loop -/

/-- The local variables of `handleClient`. -/
structure Locals where
  isServiceProvider : Bool := false
  providerAddr : Bytes := []
  deriving DecidableEq, Repr

/-- The `switch` of `handleClient`: the response `rsp`, if there is one, and
the locals and the registry after it. -/
def dispatch (peer : Option IPv4Address) (req : Protocol) (l : Locals) (r : Registry) :
    Except Crash (Option Protocol × Locals × Registry) :=
  if req.type = .kRpcHeartbeat then .ok (some handleHeartbeat, l, r)
  else if req.type = .kRpcServiceDiscoverRequest then
    .ok (some (r.handleServiceDiscover req), l, r)
  else if req.type = .kRpcServiceProvider then
    match handleProvider peer req with
    | .error e => .error e
    | .ok addr => .ok (none, ⟨true, addr⟩, r)
  else if req.type = .kRpcServiceRegisterRequest then
    let (rsp, r) := r.handleRegisterService l.providerAddr req
    .ok (some rsp, l, r)
  else .ok (none, l, r)

/-- `session->sendProtocol(rsp)`, if there is a response.  Nothing has closed
the session before, and whether the write succeeds is not looked at: what is
left is that `encode` may fail. -/
def sendAnswer : Option Protocol → Except Crash Unit
  | none => .ok ()
  | some rsp =>
      match rsp.encode with
      | .error e => .error (.uncaught e)
      | .ok _ => .ok ()

/-- One round of the loop for a message. -/
def handleMessage (peer : Option IPv4Address) (req : Protocol) (l : Locals) (r : Registry) :
    Except Crash (Option Protocol × Locals × Registry) := do
  let out ← dispatch peer req l r
  sendAnswer out.1
  pure out

omit [Machine] in
/-- The round in which `recvProtocol` returns null: it ends the loop only for
a service provider. -/
def handleEnd (l : Locals) (r : Registry) : Except Crash Registry :=
  if l.isServiceProvider then r.unregisterService l.providerAddr else .error .nullMessage

/-- `handleClient` from some round on, when `msgs` are received before the end
of the stream: the responses, in order, and the registry after the session. -/
def handleRounds (peer : Option IPv4Address) :
    List Protocol → Locals → Registry → Except Crash (List Protocol × Registry)
  | [], l, r => (handleEnd l r).map ([], ·)
  | req :: msgs, l, r => do
      let (rsp, l, r) ← handleMessage peer req l r
      let (rsps, r) ← handleRounds peer msgs l r
      pure (rsp.toList ++ rsps, r)

/-- `handleClient(client)`. -/
def handleClient (peer : Option IPv4Address) (msgs : List Protocol) (r : Registry) :
    Except Crash (List Protocol × Registry) :=
  handleRounds peer msgs {} r

end

end Registry

end XzmjxRpc
