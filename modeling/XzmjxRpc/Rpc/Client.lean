import XzmjxRpc.Rpc.Protocol
import XzmjxRpc.Rpc.Serializer

/-!
# XzmjxRpc.Rpc.Client

One call of `RpcClient` (`rpc/rpc_client.h`): the request that `call` writes
and what `call_internal` makes of the response.  How calls and responses find
each other is `XzmjxRpc.Rpc.Calls`.
-/

namespace XzmjxRpc

/-- The characters of an ASCII text of the source. -/
def text (s : String) : Bytes := s.toList.map fun c => BitVec.ofNat 8 c.toNat

section
variable [Machine]

/-- The payload of a request: `Serializer s; s << func_name << args_tuple;
s.reset(); s.toString()`. -/
def requestPayload (name : Ty.string.Obj) (params : List Ty) (args : (Ty.tuple params).Obj) :
    Bytes :=
  let s := Serializer.put .new .string name
  let s := Serializer.put s (.tuple params) args
  s.rewind.toString

/-- The request of `call(func_name, args...)` with sequence id `id`. -/
def request (name : Ty.string.Obj) (params : List Ty) (args : (Ty.tuple params).Obj)
    (id : BitVec 64) : Protocol :=
  .createSuccess .kRpcMethodRequest (requestPayload name params args) id

/-- What `call_internal<T>` returns for a response, when the variable `T ret;`
starts as `ret`. -/
def callResult (t : Ty) (ret : t.Val) (rsp : Protocol) : Except Fault (Option t.Val × Context) :=
  if rsp.errCode ≠ .kRpcSuccess then .ok (none, ⟨rsp.errCode, rsp.errMsg⟩)
  else
    match Serializer.get (Serializer.ofString rsp.payload) t ret with
    | .ok (ret, _) => .ok (some ret, ⟨rsp.errCode, rsp.errMsg⟩)
    | .error e =>
        match e.what with
        | some what => .ok (none, ⟨.kRpcRetTypeNotMatch, text what⟩)
        | none => .error e

omit [Machine] in
/-- What `call_internal<void>` returns for a response: the context only. -/
def callResultVoid (rsp : Protocol) : Context := ⟨rsp.errCode, rsp.errMsg⟩

/-- A request's payload is the name's encoding, then the arguments'. -/
theorem requestPayload_eq (name : Ty.string.Obj) (params : List Ty)
    (args : (Ty.tuple params).Obj) :
    requestPayload name params args = serialize .string name ++ serialize (.tuple params) args := by
  simp only [requestPayload, Serializer.put, FlatBuffer.write_write, FlatBuffer.toString_rewind,
    FlatBuffer.data_new_write]

/-- A success returns a value exactly when the payload starts with its bytes. -/
theorem callResult_eq_iff {t : Ty} {ret v : t.Val} {rsp : Protocol}
    (h : rsp.errCode = .kRpcSuccess) :
    callResult t ret rsp = .ok (some v, ⟨.kRpcSuccess, rsp.errMsg⟩) ↔
      ∃ rest, deserialize t ret rsp.payload = .ok (v, rest) := by
  rw [callResult, if_neg (not_not_intro h), h, Serializer.get, FlatBuffer.run,
    Serializer.toString_ofString]
  cases hde : deserialize t ret rsp.payload with
  | error e => cases e <;> simp [Except.map, Fault.what]
  | ok p =>
      obtain ⟨v', rest⟩ := p
      simp [Except.map]

end

end XzmjxRpc
