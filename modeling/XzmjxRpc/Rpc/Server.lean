import XzmjxRpc.Rpc.Client

/-!
# XzmjxRpc.Rpc.Server

`RpcServer::handleMethodCall` (`rpc/rpc_server.cpp`) and the wrapper
`internal_method_impl` (`rpc/rpc_server.h`) that `registerMethod` puts around
a method.

The wrapper serializes the method's result into `res`, but the response is
made of `s`, the serializer that holds the request.  So the caller gets the
bytes of its own request back (`handleMethodCall_request`), and reads the
method's result out of them only by coincidence (`answered_iff`).
-/

namespace XzmjxRpc

/-- The object a method returns; `none` stands for `void`. -/
def RetObj : Option Ty → Type
  | none => Unit
  | some t => t.Obj

/-- A registered method: its parameter types, its return type, and what it
returns or the text of the `std::exception` it throws. -/
structure Method where
  params : List Ty
  ret : Option Ty
  impl : (Ty.tuple params).Val → Except Bytes (RetObj ret)

/-- `m_services`: a method for each registered name. -/
abbrev Services := Bytes → Option Method

section
variable [Machine]

/-- `res << rt`. -/
def putRet : (ret : Option Ty) → FlatBuffer Byte → RetObj ret → FlatBuffer Byte
  | none, res, _ => res
  | some t, res, rt => Serializer.put res t rt

/-- `internal_method_impl(f, name, args)`. -/
def internalMethodImpl (m : Method) (args : Bytes) : Except Fault (FlatBuffer Byte × Context) :=
  let s := Serializer.ofString args
  let res : FlatBuffer Byte := .new
  match Serializer.get s (.tuple m.params) (Ty.init (.tuple m.params)) with
  | .error e =>
      match e.what with
      | some _ => .ok (res, ⟨.kRpcParamNotMatch, text "args not match"⟩)
      | none => .error e
  | .ok (argTp, _) =>
      match m.impl argTp with
      | .error what => .ok (res.clear, ⟨.kRpcMethodCallException, what⟩)
      | .ok rt => .ok (putRet m.ret res rt, { code := .kRpcSuccess })

/-- `res` and `ctx` of `handleMethodCall`, for the name and the argument bytes. -/
def callMethod (services : Services) (funcName args : Bytes) :
    Except Fault (FlatBuffer Byte × Context) :=
  match services funcName with
  | none => .ok (.new, ⟨.kRpcNoMethod, text "no function named " ++ funcName⟩)
  | some f => internalMethodImpl f args

/-- `handleMethodCall(req)`; an exception from decoding the name leaves it. -/
def handleMethodCall (services : Services) (req : Protocol) : Except Fault Protocol := do
  let s := Serializer.ofString req.payload
  let (funcName, s) ← Serializer.get s .string []
  let (_res, ctx) ← callMethod services funcName s.toString
  let s := s.rewind
  pure (.create .kRpcMethodResponse ctx s.toString req.seq)

/-- Whatever the response says, it answers the request's sequence id. -/
theorem handleMethodCall_seq {services : Services} {req rsp : Protocol}
    (h : handleMethodCall services req = .ok rsp) :
    rsp.seq = req.seq ∧ rsp.type = .kRpcMethodResponse := by
  unfold handleMethodCall at h
  cases hname : Serializer.get (Serializer.ofString req.payload) .string [] with
  | error e => simp [hname, bind, Except.bind] at h
  | ok p =>
      obtain ⟨funcName, s⟩ := p
      cases hcall : callMethod services funcName s.toString with
      | error e => simp [hname, hcall, bind, Except.bind] at h
      | ok q =>
          simp only [hname, hcall, bind, Except.bind, pure, Except.pure, Except.ok.injEq] at h
          rw [← h, Protocol.create_eq]
          exact ⟨rfl, rfl⟩

/-! ## a call of a registered method -/

/-- The wrapper decodes the arguments that `call` encoded and runs the method. -/
theorem internalMethodImpl_serialize {m : Method} {args : (Ty.tuple m.params).Obj}
    {o : RetObj m.ret} (h : m.impl (Ty.abs args) = .ok o) :
    internalMethodImpl m (serialize (.tuple m.params) args) =
      .ok (putRet m.ret .new o, { code := .kRpcSuccess }) := by
  have hargs : (Serializer.ofString (serialize (.tuple m.params) args)).toString =
      serialize (.tuple m.params) args ++ [] := by
    rw [Serializer.toString_ofString, List.append_nil]
  obtain ⟨s, hget, -, -⟩ :=
    Serializer.get_of_toString (Ty.interp (.tuple m.params)).init_fresh hargs
  simp only [internalMethodImpl]
  rw [hget]
  simp only
  rw [h]

/-- **The response to a call**: the code is right, and the payload is the
request's own. -/
theorem handleMethodCall_request {services : Services} {name : Ty.string.Obj} {m : Method}
    (hm : services name.1 = some m) {args : (Ty.tuple m.params).Obj} {o : RetObj m.ret}
    (h : m.impl (Ty.abs args) = .ok o) (id : BitVec 64) :
    handleMethodCall services (request name m.params args id) =
      .ok (.create .kRpcMethodResponse { code := .kRpcSuccess }
        (requestPayload name m.params args) id) := by
  have hpayload : (request name m.params args id).payload = requestPayload name m.params args :=
    Protocol.payload_create _ _ _ _
  have hseq : (request name m.params args id).seq = id := by
    rw [request, Protocol.createSuccess, Protocol.create_eq]
  have hname : (Serializer.ofString (requestPayload name m.params args)).toString =
      serialize .string name ++ serialize (.tuple m.params) args := by
    rw [Serializer.toString_ofString, requestPayload_eq]
  obtain ⟨s, hget, hdata, hrest⟩ := Serializer.get_of_toString (Ty.interp .string).init_fresh hname
  have hcall : callMethod services name.1 s.toString =
      .ok (putRet m.ret .new o, { code := .kRpcSuccess }) := by
    rw [callMethod, hm, hrest]
    exact internalMethodImpl_serialize h
  have hrewind : s.rewind.toString = requestPayload name m.params args := by
    rw [FlatBuffer.toString_rewind, hdata, Serializer.data_ofString]
  have hget : Serializer.get (Serializer.ofString (requestPayload name m.params args)) .string [] =
      .ok (name.1, s) := hget
  simp only [handleMethodCall, hpayload, hseq, hget, hcall, hrewind, bind, Except.bind, pure,
    Except.pure]

/-- What `call_internal` returns for the response is the value of what the
method returned; for `void` there is nothing to return. -/
def Returns : (ret : Option Ty) → Protocol → RetObj ret → Prop
  | none, rsp, _ => callResultVoid rsp = ⟨.kRpcSuccess, rsp.errMsg⟩
  | some t, rsp, o => ∀ ret, t.interp.Fresh ret →
      callResult t ret rsp = .ok (some (Ty.abs (t := t) o), ⟨.kRpcSuccess, rsp.errMsg⟩)

/-- The response to a call has the code for success and returns `o` to the caller. -/
def Answered (services : Services) (name : Ty.string.Obj) (m : Method)
    (args : (Ty.tuple m.params).Obj) (id : BitVec 64) (o : RetObj m.ret) : Prop :=
  ∃ rsp, handleMethodCall services (request name m.params args id) = .ok rsp ∧
    rsp.errCode = .kRpcSuccess ∧ Returns m.ret rsp o

/-- The bytes of a request, read as the return type, spell `o`. -/
def Spells : (ret : Option Ty) → Bytes → RetObj ret → Prop
  | none, _, _ => True
  | some t, payload, o => ∀ ret, t.interp.Fresh ret →
      ∃ rest, deserialize t ret payload = .ok (Ty.abs (t := t) o, rest)

/-- The caller decodes the payload of the response from its first byte on. -/
theorem returns_iff {ret : Option Ty} {o : RetObj ret} {rsp : Protocol}
    (h : rsp.errCode = .kRpcSuccess) : Returns ret rsp o ↔ Spells ret rsp.payload o := by
  cases ret with
  | none => exact ⟨fun _ => trivial, fun _ => by rw [Returns, callResultVoid, h]⟩
  | some t =>
      constructor
      · intro hr v hv
        exact (callResult_eq_iff h).mp (hr v hv)
      · intro hs v hv
        exact (callResult_eq_iff h).mpr (hs v hv)

/-- **A call**: its response returns what the method returned exactly when the
bytes of the request happen to spell it. -/
theorem answered_iff {services : Services} {name : Ty.string.Obj} {m : Method}
    (hm : services name.1 = some m) {args : (Ty.tuple m.params).Obj} {o : RetObj m.ret}
    (h : m.impl (Ty.abs args) = .ok o) (id : BitVec 64) :
    Answered services name m args id o ↔
      Spells m.ret (serialize .string name ++ serialize (.tuple m.params) args) o := by
  have hcall := handleMethodCall_request hm h id
  rw [← requestPayload_eq]
  have hcode : (Protocol.create .kRpcMethodResponse { code := .kRpcSuccess }
      (requestPayload name m.params args) id).errCode = .kRpcSuccess := by
    rw [Protocol.create_eq]
  have hreturns := returns_iff (o := o) hcode
  rw [Protocol.payload_create] at hreturns
  rw [← hreturns]
  constructor
  · rintro ⟨rsp, hrsp, -, hr⟩
    rw [hcall] at hrsp
    cases hrsp
    exact hr
  · intro hr
    exact ⟨_, hcall, hcode, hr⟩

end

/-- `int add(int a, int b)`. -/
def add : Method where
  params := [.int32, .int32]
  ret := some .int32
  impl := fun (args : BitVec 32 × BitVec 32 × Unit) =>
    (.ok (args.1 + args.2.1) : Except Bytes (BitVec 32))

/-- `std::string f()`, which returns "f". -/
def ownName : Method where
  params := []
  ret := some .string
  impl := fun _ => (.ok ⟨[102], by decide⟩ : Except Bytes { s : Bytes // s.length < 2 ^ 64 })

/-- The answer to `add(1, 2)` decodes to `-2`, the zigzag reading of the length of "add". -/
theorem not_answered_add :
    letI := x86_64
    ¬ Answered (fun _ => some add) ⟨[97, 100, 100], by decide⟩ add (1#32, 2#32, ()) 0 (3#32) := by
  rintro ⟨rsp, hrsp, -, hreturns⟩
  have hcall := @handleMethodCall_request x86_64 (fun _ => some add) ⟨[97, 100, 100], by decide⟩ add
    rfl (1#32, 2#32, ()) (3#32) rfl 0
  rw [hcall] at hrsp
  cases hrsp
  have hresult := hreturns (0 : BitVec 32) trivial
  have hvalue : @callResult x86_64 .int32 (0 : BitVec 32) (@Protocol.create .kRpcMethodResponse
      { code := .kRpcSuccess } (@requestPayload x86_64 ⟨[97, 100, 100], by decide⟩
        [.int32, .int32] (1#32, 2#32, ())) 0) =
      .ok (some (-2#32 : BitVec 32), { code := .kRpcSuccess }) := by
    decide +kernel
  have heq := hvalue.symm.trans hresult
  have hne : (-2#32 : BitVec 32) ≠ 3#32 := by decide
  exact hne (Option.some.inj (congrArg Prod.fst (Except.ok.inj heq)))

theorem answered_iff_ownName :
    letI := x86_64
    Answered (fun _ => some ownName) ⟨[102], by decide⟩ ownName () 0 ⟨[102], by decide⟩ ↔
      Spells (some .string) (serialize .string ⟨[102], by decide⟩ ++ serialize (.tuple []) ())
        ⟨[102], by decide⟩ :=
  @answered_iff x86_64 (fun _ => some ownName) ⟨[102], by decide⟩ ownName rfl () ⟨[102], by decide⟩
    rfl 0

end XzmjxRpc
