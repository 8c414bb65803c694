import XzmjxRpc.Rpc.Server
import XzmjxRpc.Rpc.Serializer.Safe
import XzmjxRpc.Rpc.Serializer.Written

/-!
# XzmjxRpc.Rpc.Server.Chunked

`RpcServer::handleMethodCall` on the chunked byte arrays it really uses: one
for the request, one for the arguments and one for the result.

For a request inside one node it is the handler of `XzmjxRpc.Rpc.Server`
(`handleMethodCallOn_of_length_lt`), and so is the whole call around it
(`callOn_eq`).  Of a longer request the name is still
read right, and the response holds the request's own payload; only the
arguments may decode to other values.  The handler meets a null node for one
kind of request, which anybody can send: the name of a method and nothing
else, in whole nodes (`handleMethodCallOn_null_iff`).
-/

namespace XzmjxRpc

open Serializer

section
variable [Machine]

/-- `res << rt`. -/
def putRetOn : (ret : Option Ty) → ByteArray Byte → RetObj ret → Except Fault (ByteArray Byte)
  | none, res, _ => .ok res
  | some t, res, rt => res.writeAll (pieces t rt)

/-- `internal_method_impl(f, name, args)`, in nodes of `base` bytes. -/
def internalMethodImplOn (base : Nat) (m : Method) (args : Bytes) :
    Except Fault (ByteArray Byte × Context) := do
  let s ← ofStringOn base args
  let res := ByteArray.new base
  match getOn s (.tuple m.params) (Ty.init (.tuple m.params)) with
  | .error e =>
      match e.what with
      | some _ => pure (res, ⟨.kRpcParamNotMatch, text "args not match"⟩)
      | none => .error e
  | .ok (argTp, _) =>
      match m.impl argTp with
      | .error what => pure (res.clear, ⟨.kRpcMethodCallException, what⟩)
      | .ok rt =>
          let res ← putRetOn m.ret res rt
          pure (res, { code := .kRpcSuccess })

/-- `res` and `ctx` of `handleMethodCall`; only a registered method is given
the arguments. -/
def callMethodOn (base : Nat) (services : Services) (funcName : Bytes) (s : ByteArray Byte) :
    Except Fault (ByteArray Byte × Context) :=
  match services funcName with
  | none => pure (.new base, ⟨.kRpcNoMethod, text "no function named " ++ funcName⟩)
  | some f => do
      let args ← s.toString
      internalMethodImplOn base f args

/-- `handleMethodCall(req)`, in nodes of `base` bytes. -/
def handleMethodCallOn (base : Nat) (services : Services) (req : Protocol) :
    Except Fault Protocol := do
  let s ← ofStringOn base req.payload
  let (funcName, s) ← getOn s .string ([] : Bytes)
  let (_res, ctx) ← callMethodOn base services funcName s
  let s ← s.setPosition 0
  let content ← s.toString
  pure (.create .kRpcMethodResponse ctx content req.seq)

/-! ## the context of a call -/

/-- `ctx` for arguments that decode to `args`, or not. -/
def Method.context (m : Method) :
    Except Fault (Ty.tuple m.params).Val → Except Fault Context
  | .error e =>
      match e.what with
      | some _ => .ok ⟨.kRpcParamNotMatch, text "args not match"⟩
      | none => .error e
  | .ok args =>
      match m.impl args with
      | .error what => .ok ⟨.kRpcMethodCallException, what⟩
      | .ok _ => .ok { code := .kRpcSuccess }

theorem internalMethodImpl_context (m : Method) (args : Bytes) :
    (internalMethodImpl m args).map Prod.snd =
      m.context (decode args (.tuple m.params) (Ty.init (.tuple m.params))) := by
  unfold internalMethodImpl decode Method.context
  dsimp only
  generalize get (ofString args) (.tuple m.params) (Ty.init (.tuple m.params)) = r
  cases r with
  | error e => cases e <;> rfl
  | ok p =>
      obtain ⟨argTp, s⟩ := p
      dsimp only [bind, Except.bind, pure, Except.pure]
      cases m.impl argTp <;> rfl

omit [Machine] in
/-- Writing into a buffer that refines never fails. -/
theorem writeAll_refines {b : ByteArray Byte} {f : FlatBuffer Byte} (h : b.Refines f)
    (ds : List Bytes) : ∃ b', b.writeAll ds = .ok b' ∧ b'.Refines (f.write ds.flatten) := by
  induction ds generalizing b f with
  | nil =>
      obtain ⟨b', hw, href⟩ := ByteArray.write_refines h []
      rw [ByteArray.write_nil, Except.ok.injEq] at hw
      subst hw
      exact ⟨b, rfl, href⟩
  | cons d ds ih =>
      obtain ⟨b₁, hw, href₁⟩ := ByteArray.write_refines h d
      obtain ⟨b₂, hall, href₂⟩ := ih href₁
      rw [FlatBuffer.write_write] at href₂
      exact ⟨b₂, (ByteArray.writeAll_cons ds hw).trans hall, href₂⟩

/-- So the result can always be written. -/
theorem putRetOn_refines {ret : Option Ty} {res : ByteArray Byte} {f : FlatBuffer Byte}
    (h : res.Refines f) (rt : RetObj ret) :
    ∃ res', putRetOn ret res rt = .ok res' ∧ res'.Refines (putRet ret f rt) := by
  cases ret with
  | none => exact ⟨res, rfl, h⟩
  | some t =>
      obtain ⟨res', hall, href⟩ := writeAll_refines h (pieces t rt)
      have heq : f.write (pieces t rt).flatten = putRet (some t) f rt :=
        congrArg f.write (flatten_pieces t rt)
      exact ⟨res', hall, heq ▸ href⟩

theorem internalMethodImplOn_context {base : Nat} (hbase : 0 < base) (m : Method) (args : Bytes) :
    (internalMethodImplOn base m args).map Prod.snd =
      m.context (decodeOn base args (.tuple m.params) (Ty.init (.tuple m.params))) := by
  obtain ⟨s, hs, -⟩ := ofStringOn_refines hbase args
  unfold internalMethodImplOn decodeOn Method.context
  rw [hs]
  dsimp only [bind, Except.bind, pure, Except.pure]
  generalize getOn s (.tuple m.params) (Ty.init (.tuple m.params)) = r
  cases r with
  | error e => cases e <;> rfl
  | ok p =>
      obtain ⟨argTp, s⟩ := p
      dsimp only
      cases m.impl argTp with
      | error what => rfl
      | ok rt =>
          obtain ⟨res, hput, -⟩ := putRetOn_refines (ByteArray.new_refines (α := Byte) hbase) rt
          dsimp only
          rw [hput]
          rfl

/-! ## the handler -/

/-- The response with that context. -/
def responseTo (req : Protocol) (ctx : Context) : Protocol :=
  .create .kRpcMethodResponse ctx req.payload req.seq

/-- What the handler makes of a request, with `argsOf` for how arguments are
decoded and `fault` for the requests it cannot handle. -/
def handledWith (argsOf : Bytes → (t : Ty) → t.Val → Except Fault t.Val) (fault : Bytes → Bool)
    (services : Services) (req : Protocol) : Except Fault Protocol :=
  match readStringVint req.payload with
  | .error e => .error e
  | .ok (funcName, args) =>
      match services funcName with
      | none => .ok (responseTo req ⟨.kRpcNoMethod, text "no function named " ++ funcName⟩)
      | some m =>
          if fault args then .error .nullNode
          else
            (m.context (argsOf args (.tuple m.params) (Ty.init (.tuple m.params)))).map
              (responseTo req)

theorem handleMethodCall_eq (services : Services) (req : Protocol) :
    handleMethodCall services req = handledWith decode (fun _ => false) services req := by
  unfold handleMethodCall handledWith
  cases hname : readStringVint req.payload with
  | error e =>
      have hget : get (ofString req.payload) .string ([] : Bytes) = .error e :=
        (get_ofString_error (t := .string) hname).2
      dsimp only
      rw [hget]
      rfl
  | ok p =>
      obtain ⟨funcName, args⟩ := p
      obtain ⟨s, hget, hdata, hrest⟩ := get_string hname
      dsimp only
      rw [hget]
      dsimp only [bind, Except.bind, pure, Except.pure]
      rw [hrest, FlatBuffer.toString_rewind, hdata]
      unfold callMethod
      cases services funcName with
      | none => rfl
      | some m =>
          dsimp only
          rw [← internalMethodImpl_context]
          cases internalMethodImpl m args <;> rfl

/-- The name is read right, and the bytes after it, unless the buffer ends
with the name and with a node. -/
theorem getOn_name {base : Nat} (hbase : 10 < base) {data : Bytes} {b : ByteArray Byte}
    (hb : ofStringOn base data = .ok b) :
    match readStringVint data with
    | .error e => getOn b .string ([] : Bytes) = .error e
    | .ok (str, rest) => ∃ s, getOn b .string ([] : Bytes) = .ok (str, s) ∧
        s.toString = (if rest = [] ∧ base ∣ data.length then .error .nullNode else .ok rest) ∧
        ∃ s', s.setPosition 0 = .ok s' ∧ s'.toString = .ok data := by
  obtain ⟨b', hb', href, rfl⟩ := ofStringOn_refines (show 0 < base by omega) data
  cases hb.symm.trans hb'
  have hle := href.wf.size_le
  rw [← (Tracks.of_refines href).size, data_ofString] at hle
  have hmatch := askStringVint_holds href href.position (by omega)
  have hflat :
      get (ofString data) .string ([] : Bytes) = askStringVint.on fromFlat (ofString data) :=
    get_eq_on _ .string ([] : Bytes)
  rw [← hflat] at hmatch
  have hchunks : getOn b .string ([] : Bytes) = askStringVint.on fromChunks b := rfl
  rw [← hchunks] at hmatch
  cases hread : readStringVint data with
  | error e =>
      have herr : get (ofString data) .string ([] : Bytes) = .error e :=
        (get_ofString_error (t := .string) hread).2
      rw [herr] at hmatch
      generalize getOn b .string ([] : Bytes) = r at hmatch ⊢
      cases hmatch
      rfl
  | ok p =>
      obtain ⟨str, rest⟩ := p
      obtain ⟨f, hget, hdata, hrest⟩ := get_string hread
      have hne : data ≠ [] := by
        rintro rfl
        cases hread
      rw [hget] at hmatch
      generalize getOn b .string ([] : Bytes) = r at hmatch ⊢
      cases hmatch with
      | @ok _ s _ h =>
          obtain ⟨hholds, hcap, -⟩ := h
          refine ⟨s, rfl, ?_, ?_⟩
          · have hend := capacity_ofStringOn (show 0 < b.baseSize by omega) hne hb
            have hlen : f.toString.length = f.data.length - f.position := List.length_drop
            have hpos := f.position_le
            have hsame := hholds.position
            rw [hrest, hdata] at hlen
            rw [hdata] at hpos
            by_cases hfull : rest = [] ∧ b.baseSize ∣ data.length
            · rw [if_pos hfull]
              obtain ⟨rfl, hdvd⟩ := hfull
              refine hholds.toString_end ?_
              rw [List.length_nil] at hlen
              have := hend.mpr hdvd
              omega
            · rw [if_neg hfull, ← hrest]
              refine hholds.toString_eq ?_
              have hle : data.length ≤ b.capacity := hle
              by_cases hnil : rest = []
              · have hne := mt hend.mp fun hdvd => hfull ⟨hnil, hdvd⟩
                omega
              · have := List.length_pos_iff.mpr hnil
                omega
          · rw [← hdata]
            exact hholds.reset_toString

theorem handleMethodCallOn_eq {base : Nat} (hbase : 10 < base) (services : Services)
    (req : Protocol) :
    handleMethodCallOn base services req =
      handledWith (decodeOn base) (fun args => args = [] ∧ base ∣ req.payload.length) services
        req := by
  obtain ⟨b, hb, -⟩ := ofStringOn_refines (show 0 < base by omega) req.payload
  have hname := getOn_name hbase hb
  unfold handleMethodCallOn handledWith
  rw [hb]
  cases hread : readStringVint req.payload with
  | error e =>
      rw [hread] at hname
      dsimp only [bind, Except.bind] at hname ⊢
      rw [hname]
  | ok p =>
      obtain ⟨funcName, args⟩ := p
      rw [hread] at hname
      obtain ⟨s, hget, hargs, s', hset, hcontent⟩ := hname
      dsimp only [bind, Except.bind, pure, Except.pure]
      rw [hget]
      dsimp only
      unfold callMethodOn
      cases services funcName with
      | none =>
          dsimp only [pure, Except.pure]
          rw [hset]
          dsimp only
          rw [hcontent]
          rfl
      | some m =>
          dsimp only [bind, Except.bind]
          rw [hargs]
          by_cases hend : args = [] ∧ base ∣ req.payload.length
          · rw [if_pos hend, if_pos (decide_eq_true hend)]
          · rw [if_neg hend, if_neg (by simpa using hend),
              ← internalMethodImplOn_context (by omega)]
            dsimp only
            cases internalMethodImplOn base m args with
            | error e => rfl
            | ok q =>
                dsimp only
                rw [hset]
                dsimp only
                rw [hcontent]
                rfl

/-- Arguments decode, or they do not match; either way there is a context. -/
theorem exists_context {base : Nat} (hbase : 1 < base) (m : Method) (args : Bytes) :
    ∃ ctx, m.context (decodeOn base args (.tuple m.params) (Ty.init (.tuple m.params))) =
      .ok ctx := by
  obtain ⟨b, hb, -⟩ := ofStringOn_refines (show 0 < base by omega) args
  unfold decodeOn
  rw [hb]
  dsimp only [bind, Except.bind, pure, Except.pure]
  obtain ⟨v, b', hget, -⟩ | ⟨e, hthrown, herr⟩ :=
    safe_ask hbase (.tuple m.params) (Ty.init (.tuple m.params)) b (used_ofStringOn hb)
  · have hget : getOn b (.tuple m.params) (Ty.init (.tuple m.params)) = .ok (v, b') := hget
    rw [hget]
    dsimp only [Method.context]
    cases m.impl v <;> exact ⟨_, rfl⟩
  · have herr : getOn b (.tuple m.params) (Ty.init (.tuple m.params)) = .error e := herr
    rw [herr]
    obtain rfl | rfl | rfl := hthrown <;> exact ⟨_, rfl⟩

/-- **The null node**: the handler meets it exactly on a request that is the
name of a registered method and nothing else, and fills whole nodes. -/
theorem handleMethodCallOn_null_iff {base : Nat} (hbase : 10 < base) (services : Services)
    (req : Protocol) :
    handleMethodCallOn base services req = .error .nullNode ↔
      base ∣ req.payload.length ∧
        ∃ name, readStringVint req.payload = .ok (name, []) ∧ (services name).isSome := by
  rw [handleMethodCallOn_eq hbase, handledWith]
  cases hread : readStringVint req.payload with
  | error e =>
      obtain rfl | rfl | rfl := scans_readStringVint.fails _ e hread <;> simp [FlatBuffer.outOfData]
  | ok p =>
      obtain ⟨funcName, args⟩ := p
      dsimp only
      cases hm : services funcName with
      | none => simp [hm]
      | some m =>
          obtain ⟨ctx, hctx⟩ := exists_context (show 1 < base by omega) m args
          dsimp only
          rw [hctx]
          by_cases hend : args = [] ∧ base ∣ req.payload.length
          · rw [if_pos (decide_eq_true hend)]
            obtain ⟨rfl, hdvd⟩ := hend
            exact iff_of_true rfl ⟨hdvd, funcName, rfl, by rw [hm]; rfl⟩
          · rw [if_neg (by simpa using hend)]
            refine iff_of_false (fun h => by cases h) ?_
            rintro ⟨hdvd, name, hname, -⟩
            cases hname
            exact hend ⟨rfl, hdvd⟩

/-- Inside one node the arguments decode as from a flat buffer. -/
theorem handledWith_small {base : Nat} (services : Services) {req : Protocol}
    (h : req.payload.length < base) :
    handledWith (decodeOn base) (fun args => args = [] ∧ base ∣ req.payload.length) services req =
      handledWith decode (fun _ => false) services req := by
  unfold handledWith
  cases hread : readStringVint req.payload with
  | error e => rfl
  | ok p =>
      obtain ⟨funcName, args⟩ := p
      obtain ⟨xs, hxs, -⟩ := scans_readStringVint.reads _ _ _ hread
      have hlen : req.payload.length = xs.length + args.length := by
        rw [hxs, List.length_append]
      have hdecode (t : Ty) (old : t.Val) : decodeOn base args t old = decode args t old := by
        obtain ⟨b, hb, hmatch⟩ := getOn_small (show args.length < base by omega) t old
        exact decodeOn_eq_decode hb hmatch
      have hfault : ¬ (args = [] ∧ base ∣ req.payload.length) := by
        rintro ⟨-, hdvd⟩
        have hnil := List.eq_nil_of_length_eq_zero (Nat.eq_zero_of_dvd_of_lt hdvd h)
        rw [hnil] at hread
        cases hread
      dsimp only
      cases services funcName with
      | none => rfl
      | some m =>
          dsimp only
          rw [hdecode, if_neg (by simpa using hfault), if_neg (by decide)]

/-- **Inside one node** the handler on chunked buffers is that on flat ones. -/
theorem handleMethodCallOn_of_length_lt {base : Nat} (hbase : 10 < base) (services : Services)
    {req : Protocol} (h : req.payload.length < base) :
    handleMethodCallOn base services req = handleMethodCall services req := by
  rw [handleMethodCallOn_eq hbase, handleMethodCall_eq, handledWith_small services h]

/-- Every response holds the payload of its request. -/
theorem payload_of_handledWith {argsOf : Bytes → (t : Ty) → t.Val → Except Fault t.Val}
    {fault : Bytes → Bool} {services : Services} {req rsp : Protocol}
    (h : handledWith argsOf fault services req = .ok rsp) : rsp.payload = req.payload := by
  have hresponse (ctx : Context) : (responseTo req ctx).payload = req.payload :=
    Protocol.payload_create _ _ _ _
  unfold handledWith at h
  split at h
  · cases h
  · split at h
    · cases h
      exact hresponse _
    · next m hm =>
        split at h
        · cases h
        · generalize m.context _ = r at h
          cases r with
          | error e => cases h
          | ok ctx =>
              cases h
              exact hresponse ctx

/-! ## a whole call -/

/-- The payload of a request, in nodes of `base` bytes: `Serializer s; s <<
func_name << args_tuple; s.reset(); s.toString()`. -/
def requestPayloadOn (base : Nat) (name : Ty.string.Obj) (params : List Ty)
    (args : (Ty.tuple params).Obj) : Except Fault Bytes := do
  let s ← (ByteArray.new base).writeAll (pieces .string name)
  let s ← s.writeAll (pieces (.tuple params) args)
  let s ← s.setPosition 0
  s.toString

/-- What `call_internal<T>` returns for a response, in nodes of `base` bytes. -/
def callResultOn (base : Nat) (t : Ty) (ret : t.Val) (rsp : Protocol) :
    Except Fault (Option t.Val × Context) :=
  if rsp.errCode ≠ .kRpcSuccess then .ok (none, ⟨rsp.errCode, rsp.errMsg⟩)
  else do
    let se ← ofStringOn base rsp.payload
    match getOn se t ret with
    | .ok (ret, _) => .ok (some ret, ⟨rsp.errCode, rsp.errMsg⟩)
    | .error e =>
        match e.what with
        | some what => .ok (none, ⟨.kRpcRetTypeNotMatch, text what⟩)
        | none => .error e

/-- `call<T>(name, args)`, its request handled by a server with `services`, in
nodes of `base` bytes; `T ret` starts as `ret`. -/
def callOn (base : Nat) (services : Services) (name : Ty.string.Obj) (params : List Ty)
    (args : (Ty.tuple params).Obj) (t : Ty) (ret : t.Val) (id : BitVec 64) :
    Except Fault (Option t.Val × Context) := do
  let payload ← requestPayloadOn base name params args
  let rsp ← handleMethodCallOn base services (.createSuccess .kRpcMethodRequest payload id)
  callResultOn base t ret rsp

/-- The same on flat buffers. -/
def callFlat (services : Services) (name : Ty.string.Obj) (params : List Ty)
    (args : (Ty.tuple params).Obj) (t : Ty) (ret : t.Val) (id : BitVec 64) :
    Except Fault (Option t.Val × Context) := do
  let rsp ← handleMethodCall services (request name params args id)
  callResult t ret rsp

/-- A request is written right, of whatever length. -/
theorem requestPayloadOn_eq {base : Nat} (hbase : 0 < base) (name : Ty.string.Obj)
    (params : List Ty) (args : (Ty.tuple params).Obj) :
    requestPayloadOn base name params args = .ok (requestPayload name params args) := by
  obtain ⟨b₁, hw₁, href₁⟩ :=
    writeAll_refines (ByteArray.new_refines (α := Byte) hbase) (pieces .string name)
  obtain ⟨b₂, hw₂, href₂⟩ := writeAll_refines href₁ (pieces (.tuple params) args)
  have hholds : Holds b₂ _ := ⟨⟨0, href₂.wf.lags⟩, href₂.content, href₂.position⟩
  obtain ⟨b₃, hset, hcontent⟩ := hholds.reset_toString
  rw [requestPayloadOn, hw₁]
  dsimp only [bind, Except.bind]
  rw [hw₂]
  dsimp only
  rw [hset]
  dsimp only
  rw [hcontent, FlatBuffer.write_write, FlatBuffer.data_new_write, flatten_pieces, flatten_pieces,
    requestPayload_eq]

/-- A short response is read right. -/
theorem callResultOn_eq {base : Nat} {t : Ty} {ret : t.Val} {rsp : Protocol}
    (h : rsp.payload.length < base) : callResultOn base t ret rsp = callResult t ret rsp := by
  obtain ⟨b, hb, hmatch⟩ := getOn_small h t ret
  unfold callResultOn callResult
  split
  · rfl
  · rw [hb]
    dsimp only [bind, Except.bind]
    generalize getOn b t ret = r at hmatch ⊢
    generalize get (ofString rsp.payload) t ret = r' at hmatch ⊢
    cases hmatch with
    | ok h => rfl
    | error e => cases e <;> rfl

/-- **A whole call** whose request fits in one node: what its caller gets is
what it gets on flat buffers. -/
theorem callOn_eq {base : Nat} (hbase : 10 < base) (services : Services) (name : Ty.string.Obj)
    (params : List Ty) (args : (Ty.tuple params).Obj) (t : Ty) (ret : t.Val) (id : BitVec 64)
    (h : (serialize .string name).length + (serialize (.tuple params) args).length < base) :
    callOn base services name params args t ret id =
      callFlat services name params args t ret id := by
  have hpayload : (request name params args id).payload = requestPayload name params args :=
    Protocol.payload_create _ _ _ _
  have hlt : (request name params args id).payload.length < base := by
    rw [hpayload, requestPayload_eq, List.length_append]
    exact h
  rw [callOn, callFlat, requestPayloadOn_eq (by omega)]
  dsimp only [bind, Except.bind]
  have hhandle : handleMethodCallOn base services (request name params args id) =
      handleMethodCall services (request name params args id) := by
    rw [handleMethodCallOn_eq hbase, handledWith_small services hlt, ← handleMethodCall_eq]
  rw [← request, hhandle]
  cases hcall : handleMethodCall services (request name params args id) with
  | error e => rfl
  | ok rsp =>
      rw [handleMethodCall_eq] at hcall
      have hsame := payload_of_handledWith hcall
      exact callResultOn_eq (by rw [hsame]; exact hlt)

end

/-- A name of ten characters in nodes of eleven. -/
theorem handleMethodCallOn_null_iff_eleven :
    letI := x86_64
    handleMethodCallOn 11 (fun _ => some ownName)
        (request ⟨List.replicate 10 102, by decide⟩ [] () 0) = .error .nullNode := by
  let m := x86_64
  refine (@handleMethodCallOn_null_iff m 11 (by decide) (fun _ => some ownName) _).mpr
    ⟨by decide, List.replicate 10 102, ?_, rfl⟩
  rfl

/-- A call of `add` in the nodes the program uses. -/
theorem handleMethodCallOn_of_length_lt_add :
    letI := x86_64
    handleMethodCallOn 4096 (fun _ => some add)
        (request ⟨[97, 100, 100], by decide⟩ [.int32, .int32] (1#32, 2#32, ()) 7) =
      handleMethodCall (fun _ => some add)
        (request ⟨[97, 100, 100], by decide⟩ [.int32, .int32] (1#32, 2#32, ()) 7) :=
  let m := x86_64
  @handleMethodCallOn_of_length_lt m 4096 (by decide) (fun _ => some add) _ (by decide)

/-- That call, to its end. -/
theorem callOn_eq_add :
    letI := x86_64
    callOn 4096 (fun _ => some add) ⟨[97, 100, 100], by decide⟩ [.int32, .int32]
        (1#32, 2#32, ()) .int32 (0 : BitVec 32) 7 =
      .ok (some (-2#32 : BitVec 32), { code := .kRpcSuccess }) := by
  let m := x86_64
  have hcall := @callOn_eq m 4096 (by decide) (fun _ => some add) ⟨[97, 100, 100], by decide⟩
    [.int32, .int32] (1#32, 2#32, ()) .int32 (0 : BitVec 32) 7 (by decide)
  exact hcall.trans (by decide +kernel)

end XzmjxRpc
