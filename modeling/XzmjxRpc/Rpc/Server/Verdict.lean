import XzmjxRpc.Rpc.Server

/-!
# XzmjxRpc.Rpc.Server.Verdict

What `handleMethodCall` makes of every request: the method it runs, the code
it answers with, and when it does not answer at all.

A method may do more than return a value, so here it acts on a world `σ`, and
the response comes with the world it leaves.  For one world that is the
handler of `XzmjxRpc.Rpc.Server` (`handleMethodCallIn_fst`).
-/

namespace XzmjxRpc

/-- A registered method with its effects: run on its arguments in a world, it
returns, or throws a `std::exception` with a text, and leaves a world. -/
structure Routine (σ : Type) where
  params : List Ty
  ret : Option Ty
  impl : (Ty.tuple params).Val → σ → Except Bytes (RetObj ret) × σ

/-- `m_services`. -/
abbrev Routines (σ : Type) := Bytes → Option (Routine σ)

/-- `s >> arg_tp` on the argument bytes. -/
def Routine.decode [Machine] {σ : Type} (m : Routine σ) : Decoder (Ty.tuple m.params).Val :=
  deserialize (.tuple m.params) (Ty.init (.tuple m.params))

/-- What the method returns in the world `w`. -/
def Routine.inWorld {σ : Type} (m : Routine σ) (w : σ) : Method where
  params := m.params
  ret := m.ret
  impl := fun args => (m.impl args w).1

section
variable [Machine] {σ : Type}

/-- `internal_method_impl(f, name, args)`. -/
def internalMethodImplIn (m : Routine σ) (args : Bytes) (w : σ) :
    Except Fault (FlatBuffer Byte × Context × σ) :=
  let s := Serializer.ofString args
  let res : FlatBuffer Byte := .new
  match Serializer.get s (.tuple m.params) (Ty.init (.tuple m.params)) with
  | .error e =>
      match e.what with
      | some _ => .ok (res, ⟨.kRpcParamNotMatch, text "args not match"⟩, w)
      | none => .error e
  | .ok (argTp, _) =>
      match m.impl argTp w with
      | (.error what, w) => .ok (res.clear, ⟨.kRpcMethodCallException, what⟩, w)
      | (.ok rt, w) => .ok (putRet m.ret res rt, { code := .kRpcSuccess }, w)

/-- `res` and `ctx` of `handleMethodCall`, for the name and the argument bytes. -/
def callMethodIn (services : Routines σ) (funcName args : Bytes) (w : σ) :
    Except Fault (FlatBuffer Byte × Context × σ) :=
  match services funcName with
  | none => .ok (.new, ⟨.kRpcNoMethod, text "no function named " ++ funcName⟩, w)
  | some f => internalMethodImplIn f args w

/-- `handleMethodCall(req)`; an exception from decoding the name leaves it. -/
def handleMethodCallIn (services : Routines σ) (req : Protocol) (w : σ) :
    Except Fault (Protocol × σ) := do
  let s := Serializer.ofString req.payload
  let (funcName, s) ← Serializer.get s .string []
  let (_res, ctx, w) ← callMethodIn services funcName s.toString w
  let s := s.rewind
  pure (.create .kRpcMethodResponse ctx s.toString req.seq, w)

/-! ## one world -/

theorem internalMethodImplIn_fst (m : Routine σ) (args : Bytes) (w : σ) :
    (internalMethodImplIn m args w).map (fun r => (r.1, r.2.1)) =
      internalMethodImpl (m.inWorld w) args := by
  unfold internalMethodImplIn internalMethodImpl Routine.inWorld
  dsimp only
  cases Serializer.get (Serializer.ofString args) (.tuple m.params) (Ty.init (.tuple m.params)) with
  | error e => cases e <;> rfl
  | ok p =>
      obtain ⟨argTp, s⟩ := p
      dsimp only
      cases m.impl argTp w with
      | mk r w' => cases r <;> rfl

theorem callMethodIn_fst (services : Routines σ) (funcName args : Bytes) (w : σ) :
    (callMethodIn services funcName args w).map (fun r => (r.1, r.2.1)) =
      callMethod (fun name => (services name).map (·.inWorld w)) funcName args := by
  cases hm : services funcName with
  | none => simp only [callMethodIn, callMethod, hm, Option.map_none, Except.map]
  | some f =>
      simp only [callMethodIn, callMethod, hm, Option.map_some]
      exact internalMethodImplIn_fst f args w

/-- The response is that of the pure handler, with every method frozen in the
world the call finds. -/
theorem handleMethodCallIn_fst (services : Routines σ) (req : Protocol) (w : σ) :
    (handleMethodCallIn services req w).map Prod.fst =
      handleMethodCall (fun name => (services name).map (·.inWorld w)) req := by
  cases hname : Serializer.get (Serializer.ofString req.payload) .string [] with
  | error e => simp [handleMethodCallIn, handleMethodCall, hname, bind, Except.bind, Except.map]
  | ok p =>
      obtain ⟨funcName, s⟩ := p
      have hfst := callMethodIn_fst services funcName s.toString w
      simp only [handleMethodCallIn, handleMethodCall, hname, bind, Except.bind, ← hfst]
      cases callMethodIn services funcName s.toString w <;> rfl

/-! ## the wrapper -/

/-- The arguments do not decode: the method is not run. -/
theorem internalMethodImplIn_of_error {m : Routine σ} {args : Bytes} {e : Fault} (w : σ)
    (h : m.decode args = .error e) :
    internalMethodImplIn m args w =
      .ok (.new, ⟨.kRpcParamNotMatch, text "args not match"⟩, w) := by
  obtain ⟨hthrown, hget⟩ := Serializer.get_ofString_error h
  simp only [internalMethodImplIn]
  rw [hget]
  obtain rfl | rfl | rfl := hthrown <;> rfl

/-- The context after a method has run. -/
def verdict {ret : Option Ty} : Except Bytes (RetObj ret) → Context
  | .error what => ⟨.kRpcMethodCallException, what⟩
  | .ok _ => { code := .kRpcSuccess }

/-- The arguments decode: the method is run on them, once. -/
theorem internalMethodImplIn_of_ok {m : Routine σ} {args rest : Bytes}
    {v : (Ty.tuple m.params).Val} (w : σ) (h : m.decode args = .ok (v, rest)) :
    ∃ res, internalMethodImplIn m args w = .ok (res, verdict (m.impl v w).1, (m.impl v w).2) := by
  obtain ⟨s, hget, -, -⟩ := Serializer.get_ofString h
  simp only [internalMethodImplIn]
  rw [hget]
  dsimp only
  cases m.impl v w with
  | mk r w' => cases r <;> exact ⟨_, rfl⟩

/-- Everything a call can come to: the context and the world it leaves. -/
inductive Outcome (services : Routines σ) (name args : Bytes) (w : σ) : Context → σ → Prop
  | noMethod : services name = none →
      Outcome services name args w ⟨.kRpcNoMethod, text "no function named " ++ name⟩ w
  | paramNotMatch {m : Routine σ} {e : Fault} : services name = some m →
      m.decode args = .error e →
      Outcome services name args w ⟨.kRpcParamNotMatch, text "args not match"⟩ w
  | ran {m : Routine σ} {v : (Ty.tuple m.params).Val} {rest : Bytes} : services name = some m →
      m.decode args = .ok (v, rest) →
      Outcome services name args w (verdict (m.impl v w).1) (m.impl v w).2

/-- Nothing but these outcomes, and always one of them. -/
theorem callMethodIn_outcome (services : Routines σ) (name args : Bytes) (w : σ) :
    ∃ res ctx w', callMethodIn services name args w = .ok (res, ctx, w') ∧
      Outcome services name args w ctx w' := by
  cases hm : services name with
  | none => exact ⟨_, _, _, by rw [callMethodIn, hm], .noMethod hm⟩
  | some m =>
      cases hde : m.decode args with
      | error e =>
          refine ⟨.new, _, _, ?_, .paramNotMatch hm hde⟩
          simp only [callMethodIn, hm]
          exact internalMethodImplIn_of_error w hde
      | ok p =>
          obtain ⟨res, hrun⟩ := internalMethodImplIn_of_ok w hde
          refine ⟨res, _, _, ?_, .ran hm hde⟩
          simp only [callMethodIn, hm]
          exact hrun

omit [Machine] in
theorem code_verdict {ret : Option Ty} (r : Except Bytes (RetObj ret)) :
    (verdict r).code = .kRpcMethodCallException ∧ (∃ what, r = .error what) ∨
      (verdict r).code = .kRpcSuccess ∧ ∃ o, r = .ok o := by
  cases r with
  | error what => exact .inl ⟨rfl, what, rfl⟩
  | ok o => exact .inr ⟨rfl, o, rfl⟩

/-! ## the handler -/

/-- A payload that holds no whole name: the exception leaves the handler. -/
theorem handleMethodCallIn_of_error {services : Routines σ} {req : Protocol} (w : σ)
    (h : ¬ HoldsString req.payload) :
    ∃ e, e.Thrown ∧ handleMethodCallIn services req w = .error e := by
  obtain ⟨e, hthrown, hget⟩ := Serializer.get_string_error h
  exact ⟨e, hthrown, by simp only [handleMethodCallIn, hget, bind, Except.bind]⟩

/-- The payload starts with a name: the response carries the context of the
call and the request's own payload. -/
theorem handleMethodCallIn_of_ok {services : Routines σ} {req : Protocol} {name args : Bytes}
    (w : σ) (h : readStringVint req.payload = .ok (name, args)) {res : FlatBuffer Byte}
    {ctx : Context} {w' : σ} (hcall : callMethodIn services name args w = .ok (res, ctx, w')) :
    handleMethodCallIn services req w =
      .ok (.create .kRpcMethodResponse ctx req.payload req.seq, w') := by
  obtain ⟨s, hget, hdata, hrest⟩ := Serializer.get_string h
  simp only [handleMethodCallIn, hget, hrest, hcall, FlatBuffer.toString_rewind, hdata, bind,
    Except.bind, pure, Except.pure]

/-- The codes that `handleMethodCall` answers with. -/
def callCodes : List ErrCode :=
  [.kRpcSuccess, .kRpcNoMethod, .kRpcParamNotMatch, .kRpcMethodCallException]

theorem Outcome.mem_callCodes {services : Routines σ} {name args : Bytes} {w w' : σ}
    {ctx : Context} (h : Outcome services name args w ctx w') : ctx.code ∈ callCodes := by
  cases h with
  | noMethod _ => simp [callCodes]
  | paramNotMatch _ _ => simp [callCodes]
  | @ran m v _ _ _ =>
      rcases code_verdict (m.impl v w).1 with ⟨hc, -⟩ | ⟨hc, -⟩ <;> simp [callCodes, hc]

/-- **Answering**: a request gets a response with its sequence id and a code,
and no exception leaves the handler, exactly when its payload starts with a
whole name. -/
theorem handleMethodCall_answers_iff (services : Routines σ) (req : Protocol) (w : σ) :
    (∃ rsp w', handleMethodCallIn services req w = .ok (rsp, w') ∧ rsp.seq = req.seq ∧
      rsp.errCode ∈ callCodes) ↔ HoldsString req.payload := by
  constructor
  · rintro ⟨rsp, w', h, -⟩
    by_contra hc
    obtain ⟨e, -, herr⟩ := handleMethodCallIn_of_error w hc
    cases h.symm.trans herr
  · intro h
    obtain ⟨name, args, hname⟩ := exists_readStringVint_iff.mpr h
    obtain ⟨res, ctx, w', hcall, hout⟩ := callMethodIn_outcome services name args w
    refine ⟨_, w', handleMethodCallIn_of_ok w hname hcall, ?_, ?_⟩
    · rw [Protocol.seq_create]
    · rw [Protocol.errCode_create]
      exact hout.mem_callCodes

/-- The methods as routines that leave the one world there is alone. -/
def unitRoutines (services : Services) : Routines Unit := fun name =>
  (services name).map fun m => ⟨m.params, m.ret, fun args w => (m.impl args, w)⟩

theorem handleMethodCall_eq_unitRoutines (services : Services) (req : Protocol) :
    handleMethodCall services req =
      (handleMethodCallIn (unitRoutines services) req ()).map Prod.fst := by
  have hsame : (fun name => (unitRoutines services name).map (·.inWorld ())) = services := by
    funext name
    cases hm : services name with
    | none => simp only [unitRoutines, hm, Option.map_none]
    | some m => simp only [unitRoutines, hm, Option.map_some, Routine.inWorld]
  rw [handleMethodCallIn_fst, hsame]

/-- Every response is made of a context with one of these codes and the
request's own payload and id. -/
theorem handleMethodCall_inv {services : Services} {req rsp : Protocol}
    (h : handleMethodCall services req = .ok rsp) :
    ∃ ctx, ctx.code ∈ callCodes ∧ rsp = .create .kRpcMethodResponse ctx req.payload req.seq := by
  rw [handleMethodCall_eq_unitRoutines] at h
  by_cases hname : HoldsString req.payload
  · obtain ⟨name, args, hread⟩ := exists_readStringVint_iff.mpr hname
    obtain ⟨res, ctx, w', hcall, hout⟩ := callMethodIn_outcome (unitRoutines services) name args ()
    rw [handleMethodCallIn_of_ok () hread hcall] at h
    cases h
    exact ⟨ctx, hout.mem_callCodes, rfl⟩
  · obtain ⟨e, -, herr⟩ := handleMethodCallIn_of_error () hname
    rw [herr] at h
    cases h

/-- The world a call leaves: that of one run of the method on the decoded
arguments, if there is a method and they decode, and otherwise the old one. -/
def worldAfter (services : Routines σ) (name args : Bytes) (w : σ) : σ :=
  match services name with
  | none => w
  | some m =>
      match m.decode args with
      | .error _ => w
      | .ok (v, _) => (m.impl v w).2

theorem Outcome.world_eq {services : Routines σ} {name args : Bytes} {w w' : σ} {ctx : Context}
    (h : Outcome services name args w ctx w') : w' = worldAfter services name args w := by
  cases h with
  | noMethod hm => simp only [worldAfter, hm]
  | paramNotMatch hm hde => simp only [worldAfter, hm, hde]
  | ran hm hde => simp only [worldAfter, hm, hde]

/-- The code says which outcome it was. -/
theorem Outcome.codes {services : Routines σ} {name args : Bytes} {w w' : σ} {ctx : Context}
    (h : Outcome services name args w ctx w') :
    (ctx.code = .kRpcNoMethod ↔ services name = none) ∧
    (ctx.code = .kRpcParamNotMatch ↔ ∃ m e, services name = some m ∧ m.decode args = .error e) ∧
    (ctx.code = .kRpcMethodCallException ↔
      ∃ m v rest what, services name = some m ∧ m.decode args = .ok (v, rest) ∧
        (m.impl v w).1 = .error what) ∧
    (ctx.code = .kRpcSuccess ↔
      ∃ m v rest o, services name = some m ∧ m.decode args = .ok (v, rest) ∧
        (m.impl v w).1 = .ok o) := by
  cases h with
  | noMethod hm =>
      have hcode (c : ErrCode) (hc : ErrCode.kRpcNoMethod ≠ c) :
          (Context.mk .kRpcNoMethod (text "no function named " ++ name)).code ≠ c := hc
      refine ⟨iff_of_true rfl hm, iff_of_false (hcode _ (by decide)) ?_,
        iff_of_false (hcode _ (by decide)) ?_, iff_of_false (hcode _ (by decide)) ?_⟩
      · rintro ⟨m, e, hm', -⟩
        cases hm.symm.trans hm'
      · rintro ⟨m, v, rest, what, hm', -⟩
        cases hm.symm.trans hm'
      · rintro ⟨m, v, rest, o, hm', -⟩
        cases hm.symm.trans hm'
  | @paramNotMatch m e hm hde =>
      refine ⟨iff_of_false (by decide) (by rw [hm]; simp), iff_of_true rfl ⟨m, e, hm, hde⟩,
        iff_of_false (by decide) ?_, iff_of_false (by decide) ?_⟩
      · rintro ⟨m', v, rest, what, hm', hde', -⟩
        cases hm.symm.trans hm'
        cases hde.symm.trans hde'
      · rintro ⟨m', v, rest, o, hm', hde', -⟩
        cases hm.symm.trans hm'
        cases hde.symm.trans hde'
  | @ran m v rest hm hde =>
      have hrun (c : ErrCode) (hc : c ≠ .kRpcMethodCallException ∧ c ≠ .kRpcSuccess) :
          (verdict (m.impl v w).1).code ≠ c := by
        rcases code_verdict (m.impl v w).1 with ⟨h, -⟩ | ⟨h, -⟩ <;> rw [h]
        · exact hc.1.symm
        · exact hc.2.symm
      refine ⟨iff_of_false (hrun _ (by decide)) (by rw [hm]; simp),
        iff_of_false (hrun _ (by decide)) ?_, ?_, ?_⟩
      · rintro ⟨m', e, hm', hde'⟩
        cases hm.symm.trans hm'
        cases hde.symm.trans hde'
      all_goals
        rcases code_verdict (m.impl v w).1 with ⟨h, what, hr⟩ | ⟨h, o, hr⟩
      · exact iff_of_true h ⟨m, v, rest, what, hm, hde, hr⟩
      · refine iff_of_false (by rw [h]; decide) ?_
        rintro ⟨m', v', rest', what, hm', hde', hr'⟩
        cases hm.symm.trans hm'
        cases hde.symm.trans hde'
        cases hr.symm.trans hr'
      · refine iff_of_false (by rw [h]; decide) ?_
        rintro ⟨m', v', rest', o, hm', hde', hr'⟩
        cases hm.symm.trans hm'
        cases hde.symm.trans hde'
        cases hr.symm.trans hr'
      · exact iff_of_true h ⟨m, v, rest, o, hm, hde, hr⟩

/-- **The verdict**: for a payload that starts with a name, the code of the
response says what happened, and the method ran once on the decoded arguments
or not at all. -/
theorem handleMethodCall_verdict {services : Routines σ} {req : Protocol} {name args : Bytes}
    (hname : readStringVint req.payload = .ok (name, args)) (w : σ) :
    ∃ rsp w', handleMethodCallIn services req w = .ok (rsp, w') ∧
      rsp.type = .kRpcMethodResponse ∧ rsp.seq = req.seq ∧
      (rsp.errCode = .kRpcNoMethod ↔ services name = none) ∧
      (rsp.errCode = .kRpcParamNotMatch ↔
        ∃ m e, services name = some m ∧ m.decode args = .error e) ∧
      (rsp.errCode = .kRpcMethodCallException ↔
        ∃ m v rest what, services name = some m ∧ m.decode args = .ok (v, rest) ∧
          (m.impl v w).1 = .error what) ∧
      (rsp.errCode = .kRpcSuccess ↔
        ∃ m v rest o, services name = some m ∧ m.decode args = .ok (v, rest) ∧
          (m.impl v w).1 = .ok o) ∧
      w' = worldAfter services name args w := by
  obtain ⟨res, ctx, w', hcall, hout⟩ := callMethodIn_outcome services name args w
  have hcodes := hout.codes
  rw [← Protocol.errCode_create .kRpcMethodResponse ctx req.payload req.seq] at hcodes
  obtain ⟨h₁, h₂, h₃, h₄⟩ := hcodes
  exact ⟨_, w', handleMethodCallIn_of_ok w hname hcall, Protocol.type_create ..,
    Protocol.seq_create .., h₁, h₂, h₃, h₄, hout.world_eq⟩

/-- **Arguments**: a registered method runs, and the call is not answered with
`kRpcParamNotMatch`, exactly when a first part of the argument bytes is, to its
last byte, what its parameter tuple is decoded from.  The bytes after that part
change nothing, be they further arguments or not. -/
theorem handleMethodCall_runs_iff {services : Routines σ} {req : Protocol} {name args : Bytes}
    {m : Routine σ} (hname : readStringVint req.payload = .ok (name, args))
    (hm : services name = some m) (w : σ) :
    ∃ rsp w', handleMethodCallIn services req w = .ok (rsp, w') ∧
      (rsp.errCode ≠ .kRpcParamNotMatch ↔
        ∃ d rest v, args = d ++ rest ∧ m.decode d = .ok (v, [])) ∧
      (rsp.errCode = .kRpcParamNotMatch → w' = w) ∧
      (∀ d rest v, args = d ++ rest → m.decode d = .ok (v, []) →
        rsp.errCode = (verdict (m.impl v w).1).code ∧ w' = (m.impl v w).2) ∧
      ∀ (o : (Ty.tuple m.params).Obj) (more : Bytes),
        args = serialize (.tuple m.params) o ++ more →
        rsp.errCode = (verdict (m.impl (Ty.abs o) w).1).code ∧
          w' = (m.impl (Ty.abs o) w).2 := by
  obtain ⟨res, ctx, w', hcall, hout⟩ := callMethodIn_outcome services name args w
  obtain ⟨-, hcode, -, -⟩ := hout.codes
  have hscans : Reader.Scans Fault.Thrown m.decode := scans_deserialize _ _
  have hran {v : (Ty.tuple m.params).Val} {rest : Bytes} (hde : m.decode args = .ok (v, rest)) :
      ctx.code = (verdict (m.impl v w).1).code ∧ w' = (m.impl v w).2 := by
    cases hout with
    | noMethod hm' => cases hm.symm.trans hm'
    | paramNotMatch hm' hde' =>
        cases hm.symm.trans hm'
        cases hde.symm.trans hde'
    | ran hm' hde' =>
        cases hm.symm.trans hm'
        cases hde.symm.trans hde'
        exact ⟨rfl, rfl⟩
  refine ⟨_, w', handleMethodCallIn_of_ok w hname hcall, ?_⟩
  rw [Protocol.errCode_create]
  refine ⟨?_, ?_, ?_, ?_⟩
  · rw [Ne, hcode]
    constructor
    · intro hnot
      cases hde : m.decode args with
      | error e => exact absurd ⟨m, e, hm, hde⟩ hnot
      | ok p =>
          obtain ⟨d, hd, hv⟩ := hscans.eq_ok_iff.mp hde
          exact ⟨d, p.2, p.1, hd, hv⟩
    · rintro ⟨d, rest, v, hd, hv⟩ ⟨m', e, hm', hde⟩
      cases hm.symm.trans hm'
      cases hde.symm.trans (hscans.eq_ok_iff.mpr ⟨d, hd, hv⟩)
  · intro h
    obtain ⟨m', e, hm', hde⟩ := hcode.mp h
    cases hm.symm.trans hm'
    rw [hout.world_eq]
    simp only [worldAfter, hm, hde]
  · intro d rest v hd hv
    exact hran (hscans.eq_ok_iff.mpr ⟨d, hd, hv⟩)
  · rintro o more rfl
    exact hran (roundTrips (.tuple m.params) o _ (Ty.interp _).init_fresh more)

end

/-- `int add(int a, int b)`, in a world that counts its calls. -/
def addCounted : Routine Nat where
  params := [.int32, .int32]
  ret := some .int32
  impl := fun (args : BitVec 32 × BitVec 32 × Unit) calls =>
    ((.ok (args.1 + args.2.1) : Except Bytes (BitVec 32)), calls + 1)

/-- The payload of the call `add(1, 2)`, then of `add(1, 2, 3)`. -/
def addPayload (more : Bytes) : Bytes := [3, 97, 100, 100, 2, 4] ++ more

/-- A call of `add` with three arguments is answered with the code for success,
and `add` has run. -/
theorem add_three_arguments :
    letI := x86_64
    requestPayload ⟨[97, 100, 100], by decide⟩ [.int32, .int32, .int32] (1#32, 2#32, 3#32, ()) =
      addPayload [6] ∧
    (handleMethodCallIn (fun _ => some addCounted) { payload := addPayload [6] } 0).map
      (fun r => (r.1.errCode, r.2)) = .ok (.kRpcSuccess, 1) := by
  decide +kernel

theorem handleMethodCall_verdict_add :
    letI := x86_64
    ∃ rsp w', handleMethodCallIn (fun _ => some addCounted) { payload := addPayload [] } 0 =
      .ok (rsp, w') ∧ rsp.errCode = .kRpcSuccess ∧ w' = 1 := by
  let inst := x86_64
  have hname : readStringVint (addPayload []) = .ok ([97, 100, 100], [2, 4]) := by decide +kernel
  have hde : addCounted.decode [2, 4] = .ok ((1#32, 2#32, ()), []) := by decide +kernel
  obtain ⟨rsp, w', hcall, -, -, -, -, -, hok, hw⟩ :=
    @handleMethodCall_verdict x86_64 Nat (fun _ => some addCounted) { payload := addPayload [] } _ _
      hname 0
  exact ⟨rsp, w', hcall, hok.mpr ⟨addCounted, _, _, _, rfl, hde, rfl⟩, hw.trans rfl⟩

theorem handleMethodCall_runs_iff_add :
    letI := x86_64
    ∃ rsp w', handleMethodCallIn (fun _ => some addCounted) { payload := addPayload [6] } 0 =
      .ok (rsp, w') ∧ rsp.errCode = .kRpcSuccess ∧ w' = 1 := by
  let inst := x86_64
  have hname : readStringVint (addPayload [6]) = .ok ([97, 100, 100], [2, 4, 6]) := by
    decide +kernel
  have hde : addCounted.decode [2, 4] = .ok ((1#32, 2#32, ()), []) := by decide +kernel
  obtain ⟨rsp, w', hcall, -, -, hran, -⟩ :=
    @handleMethodCall_runs_iff x86_64 Nat (fun _ => some addCounted) { payload := addPayload [6] } _
      _ _ hname rfl 0
  obtain ⟨hcode, rfl⟩ := hran [2, 4] [6] _ rfl hde
  exact ⟨rsp, _, hcall, hcode, rfl⟩

/-- The exception that an empty payload throws leaves the handler. -/
theorem handleMethodCall_empty_throws :
    letI := x86_64
    handleMethodCallIn (fun _ => none) { type := .kRpcMethodRequest, seq := 7 } () =
      .error (.outOfRange "not enough data to read") := by
  decide +kernel

end XzmjxRpc
