import XzmjxRpc.Rpc.Send.Whole
import XzmjxRpc.Rpc.Wire.Calls

/-!
# XzmjxRpc.Rpc.Wire.Refines

The system on bytes refines the system on messages: as long as every step is
`Orderly`, each step on bytes is a step of `XzmjxRpc.Rpc.Calls`, or none if it
is about a heartbeat (`Shows.step`).  What holds of the calls there then holds
of what a caller gets here.
-/

namespace XzmjxRpc
namespace Wire

open Function
open Calls (Tagged)

/-! ## forgetting which call a message belongs to -/

def ofOutcome : Calls.Outcome → Outcome
  | .response r => .response r.msg
  | .timeout => .timeout

def ofPhase : Calls.Phase → Phase
  | .registered => .registered
  | .waiting => .waiting
  | .woken out => .woken (ofOutcome out)
  | .ended out => .ended (ofOutcome out)

def ofCall (k : Calls.Call) : Call := ⟨k.id, k.req, k.recvChan.map (·.msg), ofPhase k.phase⟩

theorem registered_of_ofPhase {p : Calls.Phase} (h : ofPhase p = .registered) :
    p = .registered := by
  cases p <;> first | rfl | cases h

theorem waiting_of_ofPhase {p : Calls.Phase} (h : ofPhase p = .waiting) : p = .waiting := by
  cases p <;> first | rfl | cases h

theorem woken_of_ofPhase {p : Calls.Phase} {out : Outcome} (h : ofPhase p = .woken out) :
    ∃ o, p = .woken o ∧ ofOutcome o = out := by
  cases p <;> cases h
  exact ⟨_, rfl, rfl⟩

/-- The messages `ms` are the tagged ones, which have type `T`, with heartbeats
between them. -/
structure Holds (T : MsgType) (ms : List Protocol) (rs : List Tagged) : Prop where
  plain : ∀ m ∈ ms, Plain m
  tagged : ∀ r ∈ rs, r.msg.type = T
  calls : ms.filter (· ≠ .heartbeat) = rs.map (·.msg)

variable {T : MsgType} {ms : List Protocol} {rs : List Tagged}

theorem ne_heartbeat (hT : T ≠ .kRpcHeartbeat) {m : Protocol} (h : m.type = T) :
    m ≠ .heartbeat := by
  rintro rfl
  exact hT h.symm

theorem Holds.nil : Holds T [] [] := ⟨nofun, nofun, rfl⟩

theorem Holds.append_heartbeat (h : Holds T ms rs) : Holds T (ms ++ [.heartbeat]) rs where
  plain m hm := by
    rcases List.mem_append.mp hm with hm | hm
    · exact h.plain m hm
    · exact List.mem_singleton.mp hm ▸ plain_heartbeat
  tagged := h.tagged
  calls := by rw [List.filter_append, h.calls]; exact List.append_nil _

theorem Holds.append (h : Holds T ms rs) (hT : T ≠ .kRpcHeartbeat) {r : Tagged}
    (htype : r.msg.type = T) (hplain : Plain r.msg) : Holds T (ms ++ [r.msg]) (rs ++ [r]) where
  plain m hm := by
    rcases List.mem_append.mp hm with hm | hm
    · exact h.plain m hm
    · exact List.mem_singleton.mp hm ▸ hplain
  tagged r' hr := by
    rcases List.mem_append.mp hr with hr | hr
    · exact h.tagged r' hr
    · exact List.mem_singleton.mp hr ▸ htype
  calls := by
    have hne := ne_heartbeat hT htype
    rw [List.filter_append, h.calls, List.filter_cons_of_pos (by simpa using hne), List.map_append]
    rfl

/-- The first message is a heartbeat, or the first tagged one. -/
theorem Holds.uncons {m : Protocol} (h : Holds T (m :: ms) rs) :
    (m = .heartbeat ∧ Holds T ms rs) ∨
      ∃ r rs', rs = r :: rs' ∧ r.msg = m ∧ m ≠ .heartbeat ∧ Holds T ms rs' := by
  have hplain : ∀ m' ∈ ms, Plain m' := fun m' hm => h.plain m' (List.mem_cons_of_mem _ hm)
  by_cases hm : m = .heartbeat
  · subst hm
    exact .inl ⟨rfl, hplain, h.tagged, by simpa using h.calls⟩
  · have hcalls := h.calls
    rw [List.filter_cons_of_pos (by simpa using hm)] at hcalls
    cases rs with
    | nil => cases hcalls
    | cons r rs =>
        rw [List.map_cons, List.cons.injEq] at hcalls
        exact .inr ⟨r, rs, rfl, hcalls.1.symm, hm, hplain,
          fun r' hr => h.tagged r' (List.mem_cons_of_mem _ hr), hcalls.2⟩

section
variable [Machine]

/-! ## messages of one node -/

theorem oneNode_heartbeat : Send.OneNode .heartbeat := by
  rw [Send.OneNode, plain_heartbeat.encoded, List.length_append, Protocol.length_encodeHeader]
  decide

/-- What is sent is the message, which fits a node. -/
theorem sendProtocol_inv {m : Protocol} {bytes : Bytes} (h : sendProtocol m = .ok bytes) :
    bytes = Send.encoded m ∧ Send.OneNode m := by
  cases hm : m.encode with
  | error e => rw [sendProtocol, hm] at h; cases h
  | ok bt =>
      have henc : Send.encoded m = bt.data := by rw [Send.encoded, hm]
      have hwhole : bt.toString = bt.data := by
        rw [FlatBuffer.toString, Protocol.position_encode hm, List.drop_zero]
      rw [sendProtocol, hm] at h
      dsimp only [bind, Except.bind] at h
      split at h
      · next hle =>
          cases h
          exact ⟨hwhole.trans henc.symm, (congrArg List.length henc).trans_le hle⟩
      · cases h

/-- The null node is that of `SocketStream::write`. -/
theorem sendProtocol_null_iff {m : Protocol} {f : FlatBuffer Byte} {bt : ByteArray Byte}
    (hf : m.encode = .ok f) (href : bt.Refines f) (hbase : bt.baseSize = Send.defaultBaseSize)
    {rt : Int} (hrt : 0 < rt) :
    sendProtocol m = .error .nullNode ↔
      socketWrite (.sendmsg rt) bt bt.size = .error .nullNode := by
  have hsize : f.data.length = bt.size := by rw [← href.content, href.wf.length_content]
  have hpos := Protocol.position_encode hf
  have h20 : 0 < Protocol.kHeaderLen := by decide
  have hhead := kHeaderLen_le_encode hf
  rw [sendProtocol, hf]
  dsimp only [bind, Except.bind]
  by_cases hle : f.data.length ≤ Send.defaultBaseSize
  · obtain ⟨k, bt', hw, -⟩ := socketWrite_sendmsg href (by omega) (hbase ▸ hle)
      (by rw [hbase]; decide) hsize.le hrt
    rw [if_pos hle, hw]
    exact ⟨nofun, nofun⟩
  · rw [if_neg hle, socketWrite_fault href hpos (by omega) hsize.le]
    exact ⟨fun _ => rfl, fun _ => rfl⟩

/-- So the payload of one is shorter than a node. -/
theorem length_payload_lt {m : Protocol} (hm : Plain m) (hone : Send.OneNode m) :
    m.payload.length < Send.defaultBaseSize := by
  have hhdr := Protocol.length_encodeHeader m
  have h20 : 0 < Protocol.kHeaderLen := by decide
  rw [Send.OneNode, hm.encoded, List.length_append, hhdr] at hone
  omega

/-- The messages whose coroutines run, in any order. -/
structure Handles (T : MsgType) (ms : List Protocol) (rs : List Tagged) : Prop where
  plain : ∀ m ∈ ms, Plain m
  short : ∀ m ∈ ms, Send.OneNode m
  tagged : ∀ r ∈ rs, r.msg.type = T
  calls : (ms.filter (· ≠ .heartbeat)).Perm (rs.map (·.msg))

theorem Handles.nil : Handles T [] [] := ⟨nofun, nofun, nofun, .refl _⟩

theorem Handles.cons_heartbeat (h : Handles T ms rs) : Handles T (.heartbeat :: ms) rs where
  plain := List.forall_mem_cons.mpr ⟨plain_heartbeat, h.plain⟩
  short := List.forall_mem_cons.mpr ⟨oneNode_heartbeat, h.short⟩
  tagged := h.tagged
  calls := by
    rw [List.filter_cons_of_neg (by simp)]
    exact h.calls

theorem Handles.cons (h : Handles T ms rs) (hT : T ≠ .kRpcHeartbeat) {r : Tagged}
    (htype : r.msg.type = T) (hplain : Plain r.msg) (hone : Send.OneNode r.msg) :
    Handles T (r.msg :: ms) (r :: rs) where
  plain := List.forall_mem_cons.mpr ⟨hplain, h.plain⟩
  short := List.forall_mem_cons.mpr ⟨hone, h.short⟩
  tagged := List.forall_mem_cons.mpr ⟨htype, h.tagged⟩
  calls := by
    have hne := ne_heartbeat hT htype
    rw [List.filter_cons_of_pos (by simpa using hne)]
    exact h.calls.cons _

theorem Handles.erase_heartbeat (h : Handles T ms rs) (hm : .heartbeat ∈ ms) :
    Handles T (ms.erase .heartbeat) rs where
  plain m hm' := h.plain m (List.mem_of_mem_erase hm')
  short m hm' := h.short m (List.mem_of_mem_erase hm')
  tagged := h.tagged
  calls := by
    have hperm := (List.perm_cons_erase hm).filter (· ≠ .heartbeat)
    rw [List.filter_cons_of_neg (by simp)] at hperm
    exact hperm.symm.trans h.calls

/-- A message that is handled is a tagged one, and both are taken away. -/
theorem Handles.erase (h : Handles T ms rs) {m : Protocol} (hm : m ∈ ms) (hne : m ≠ .heartbeat) :
    ∃ r ∈ rs, r.msg = m ∧ Handles T (ms.erase m) (rs.erase r) := by
  have hin : m ∈ rs.map (·.msg) :=
    h.calls.mem_iff.mp (List.mem_filter.mpr ⟨hm, by simpa using hne⟩)
  obtain ⟨r, hr, rfl⟩ := List.mem_map.mp hin
  refine ⟨r, hr, rfl, ?_⟩
  constructor
  · exact fun m hm' => h.plain m (List.mem_of_mem_erase hm')
  · exact fun m hm' => h.short m (List.mem_of_mem_erase hm')
  · exact fun r' hr' => h.tagged r' (List.mem_of_mem_erase hr')
  · have hleft := (List.perm_cons_erase hm).filter (· ≠ .heartbeat)
    rw [List.filter_cons_of_pos (by simpa using hne)] at hleft
    have hright := (List.perm_cons_erase hr).map (·.msg)
    rw [List.map_cons] at hright
    exact (hleft.symm.trans (h.calls.trans hright)).cons_inv

/-- The bytes of a connection hold the tagged messages, which fit a node. -/
def OnWire (T : MsgType) (bytes : Bytes) (rs : List Tagged) : Prop :=
  ∃ ms, wireCodec.Frames ms bytes ∧ (∀ m ∈ ms, Send.OneNode m) ∧ Holds T ms rs

theorem OnWire.nil : OnWire T [] [] := ⟨[], .nil, nofun, .nil⟩

/-- An orderly receive is that of the codec. -/
theorem recv_eq {bytes : Bytes} {arrive : Nat → Arrival} (h : wireCodec.Frames ms bytes)
    (hone : ∀ m ∈ ms, Send.OneNode m) (harrive : ∀ i, 0 < (arrive i).result)
    (hfit : (recv arrive bytes).2.Fits) :
    (recv arrive bytes).1 = (wireCodec.receive bytes).1 ∧
      (recv arrive bytes).2.stream = (wireCodec.receive bytes).2 := by
  have hpre : bytes <+: ms.flatMap Send.encoded := h.stream ▸ List.prefix_refl _
  exact recvProtocolOn_wire (c := { stream := bytes }) harrive
    (fun m hm => ⟨h.ok m hm, hone m hm⟩) hpre hfit

/-- It takes the first message. -/
theorem recv_frames {bytes : Bytes} {arrive : Nat → Arrival} {m : Protocol} {c : Conn}
    (h : wireCodec.Frames ms bytes) (hone : ∀ m ∈ ms, Send.OneNode m)
    (harrive : ∀ i, 0 < (arrive i).result) (hfit : (recv arrive bytes).2.Fits)
    (hrecv : recv arrive bytes = (.ok (some m), c)) :
    ∃ ms', ms = m :: ms' ∧ wireCodec.Frames ms' c.stream := by
  obtain ⟨hfst, hsnd⟩ := recv_eq h hone harrive hfit
  rw [hrecv] at hfst hsnd
  exact h.received (Prod.ext hfst.symm hsnd.symm)

/-- A received message is a heartbeat, or the first tagged one. -/
theorem OnWire.recv {bytes : Bytes} {arrive : Nat → Arrival} {m : Protocol} {c : Conn}
    (h : OnWire T bytes rs) (harrive : ∀ i, 0 < (arrive i).result)
    (hfit : (Wire.recv arrive bytes).2.Fits)
    (hrecv : Wire.recv arrive bytes = (.ok (some m), c)) :
    (m = .heartbeat ∧ OnWire T c.stream rs) ∨
      ∃ r rs', rs = r :: rs' ∧ r.msg = m ∧ m.type = T ∧ Plain m ∧ Send.OneNode m ∧
        OnWire T c.stream rs' := by
  obtain ⟨ms, hframes, hone, hholds⟩ := h
  obtain ⟨ms', rfl, hframes'⟩ := recv_frames hframes hone harrive hfit hrecv
  obtain ⟨hm, hone'⟩ := List.forall_mem_cons.mp hone
  have hplain := hholds.plain m List.mem_cons_self
  rcases hholds.uncons with ⟨hbeat, hrest⟩ | ⟨r, rs', hrs, hr, -, hrest⟩
  · exact .inl ⟨hbeat, ms', hframes', hone', hrest⟩
  · have htype := hholds.tagged r (hrs ▸ List.mem_cons_self)
    exact .inr ⟨r, rs', hrs, hr, hr ▸ htype, hplain, hm, ms', hframes', hone', hrest⟩

theorem OnWire.append_heartbeat {bytes : Bytes} (h : OnWire T bytes rs) :
    OnWire T (bytes ++ Send.encoded .heartbeat) rs := by
  obtain ⟨ms, hframes, hone, hholds⟩ := h
  exact ⟨_, hframes.append plain_heartbeat,
    List.forall_mem_append.mpr ⟨hone, List.forall_mem_singleton.mpr oneNode_heartbeat⟩,
    hholds.append_heartbeat⟩

theorem OnWire.append {bytes : Bytes} (h : OnWire T bytes rs) (hT : T ≠ .kRpcHeartbeat)
    {r : Tagged} (htype : r.msg.type = T) (hplain : Plain r.msg) (hshort : Send.OneNode r.msg) :
    OnWire T (bytes ++ Send.encoded r.msg) (rs ++ [r]) := by
  obtain ⟨ms, hframes, hone, hholds⟩ := h
  exact ⟨_, hframes.append hplain,
    List.forall_mem_append.mpr ⟨hone, List.forall_mem_singleton.mpr hshort⟩,
    hholds.append hT htype hplain⟩

/-! ## the abstraction -/

/-- A state on messages that a state on bytes stands for. -/
structure Shows (s : Calls.State) (w : State) : Prop where
  calls : ∀ c, w.calls c = (s.calls c).map ofCall
  begun : w.begun = s.begun
  seqId : w.seqId = s.seqId
  outstanding : w.outstanding = s.outstanding
  requests : ∀ c k, s.calls c = some k → k.req.type = .kRpcMethodRequest ∧ Plain k.req
  sendQueue : Holds .kRpcMethodRequest w.sendQueue s.sendQueue
  toServer : OnWire .kRpcMethodRequest w.toServer s.toServer
  handling : Handles .kRpcMethodRequest w.handling s.handling
  toClient : OnWire .kRpcMethodResponse w.toClient s.toClient

theorem shows_init : Shows Calls.init init where
  calls _ := rfl
  begun := rfl
  seqId := rfl
  outstanding := rfl
  requests _ _ h := by cases h
  sendQueue := .nil
  toServer := .nil
  handling := .nil
  toClient := .nil

variable {s : Calls.State} {w : State}

theorem Shows.exists_call (h : Shows s w) {c : Nat} {k : Call} (hk : w.calls c = some k) :
    ∃ k₀, s.calls c = some k₀ ∧ k = ofCall k₀ := by
  rw [h.calls] at hk
  obtain ⟨k₀, hk₀, rfl⟩ := Option.map_eq_some_iff.mp hk
  exact ⟨k₀, hk₀, rfl⟩

/-- A call is moved on at both levels. -/
theorem Shows.setCall (h : Shows s w) {c : Nat} {k : Calls.Call} (hk : s.calls c = some k)
    (k' : Calls.Call) (hreq : k'.req = k.req) :
    Shows (s.setCall c k') (w.setCall c (ofCall k')) where
  calls c' := by
    simp only [State.setCall, Calls.State.setCall, update_apply]
    split
    · rfl
    · exact h.calls c'
  begun := h.begun
  seqId := h.seqId
  outstanding := h.outstanding
  requests c' k'' hk'' := by
    rw [Calls.calls_setCall] at hk''
    split at hk''
    · cases hk''
      rw [hreq]
      exact h.requests c k hk
    · exact h.requests c' k'' hk''
  sendQueue := h.sendQueue
  toServer := h.toServer
  handling := h.handling
  toClient := h.toClient

theorem Shows.register (h : Shows s w) {payload : Bytes} (hlen : payload.length < 2 ^ 31) :
    Shows (s.register payload) (w.register payload) where
  calls c := by
    have hnew : w.newCall payload = ofCall (s.newCall payload) := by
      rw [State.newCall, h.seqId]
      rfl
    simp only [State.register, Calls.State.register, update_apply, h.begun, hnew]
    split
    · rfl
    · exact h.calls c
  begun := congrArg (· + 1) h.begun
  seqId := congrArg (· + 1) h.seqId
  outstanding := by
    simp only [State.register, Calls.State.register, h.outstanding, h.seqId, h.begun]
  requests c k hk := by
    rw [Calls.calls_register] at hk
    split at hk
    · cases hk
      exact ⟨Protocol.type_create _ _ _ _, plain_createSuccess _ hlen _⟩
    · exact h.requests c k hk
  sendQueue := h.sendQueue
  toServer := h.toServer
  handling := h.handling
  toClient := h.toClient

/-- A response is pushed into the channel of the same call. -/
theorem Shows.handleMethodResponse (h : Shows s w) (r : Tagged) :
    Shows (s.handleMethodResponse r) (w.handleMethodResponse r.msg) := by
  unfold Calls.State.handleMethodResponse State.handleMethodResponse
  rw [h.outstanding]
  cases s.outstanding r.msg.seq with
  | none => exact h
  | some c =>
      simp only [Calls.State.push, State.push, h.calls]
      cases hk : s.calls c with
      | none => exact h
      | some k =>
          have hset := h.setCall hk { k with recvChan := k.recvChan ++ [r] } rfl
          have hof : ofCall { k with recvChan := k.recvChan ++ [r] } =
              { ofCall k with recvChan := (ofCall k).recvChan ++ [r.msg] } := by
            simp [ofCall]
          rw [hof] at hset
          exact { hset with }

/-- The answer to a plain request is plain if it has no error text. -/
theorem plain_of_handleMethodCall {services : Services} {req rsp : Protocol} (hreq : Plain req)
    (h : handleMethodCall services req = .ok rsp) (hmsg : rsp.errMsg = []) :
    Plain rsp ∧ rsp.type = .kRpcMethodResponse := by
  obtain ⟨ctx, hcode, rfl⟩ := handleMethodCall_inv h
  have hcode : ctx.code.raw.toNat < 128 := by
    simp only [callCodes, List.mem_cons, List.not_mem_nil, or_false] at hcode
    rcases hcode with hc | hc | hc | hc <;> rw [hc] <;> decide
  rw [Protocol.errMsg_create] at hmsg
  exact ⟨⟨_, ctx, _, _, rfl, hcode, hreq.fields.2.2.2.2.2.2, hmsg⟩, Protocol.type_create ..⟩

/-- A request inside one node is handled as on flat buffers. -/
theorem respond_request {services : Services} {m : Protocol} (hm : m.type = .kRpcMethodRequest)
    (hlen : m.payload.length < Send.defaultBaseSize) :
    respond services m = (handleMethodCall services m).map some := by
  rw [respond, if_pos hm, handleMethodCallOn_eq (by decide), handledWith_small services hlen,
    ← handleMethodCall_eq]

/-- The answer of a coroutine, and its bytes. -/
theorem respond_cases {services : Services} {m : Protocol} {rsp : Option Protocol} {bytes : Bytes}
    (hm : m = .heartbeat ∨ m.type = .kRpcMethodRequest)
    (hlen : m.payload.length < Send.defaultBaseSize) (hrsp : respond services m = .ok rsp)
    (hbytes : sendAnswer rsp = .ok bytes) :
    (m = .heartbeat ∧ bytes = Send.encoded .heartbeat) ∨
      (m.type = .kRpcMethodRequest ∧ ∃ p, handleMethodCall services m = .ok p ∧
        bytes = Send.encoded p ∧ Send.OneNode p) := by
  rcases hm with rfl | hm
  · cases hrsp
    exact .inl ⟨rfl, (sendProtocol_inv hbytes).1⟩
  · rw [respond_request hm hlen] at hrsp
    cases hcall : handleMethodCall services m with
    | error e => rw [hcall] at hrsp; cases hrsp
    | ok p =>
        rw [hcall] at hrsp
        cases hrsp
        exact .inr ⟨hm, p, rfl, sendProtocol_inv hbytes⟩

/-- **Simulation**: an orderly step on bytes is a step on messages, or none if
it is about a heartbeat. -/
theorem Shows.step {t : State} {a : Action} (h : Shows s w)
    (hs : Lts.Restrict Step Orderly w a t) :
    ∃ as s', Lts.Run Calls.Step s as s' ∧ Shows s' t := by
  obtain ⟨hord, hs⟩ := hs
  cases hs with
  | begin payload => exact ⟨_, _, .single (.begin s payload), h.register hord⟩
  | enqueue hk hp =>
      obtain ⟨k, hk₀, rfl⟩ := h.exists_call hk
      obtain ⟨htype, hplain⟩ := h.requests _ k hk₀
      have hset := h.setCall hk₀ { k with phase := .waiting } rfl
      exact ⟨_, _, .single (.enqueue hk₀ (registered_of_ofPhase hp)),
        { hset with
          sendQueue := h.sendQueue.append (r := ⟨_, k.req⟩) (by decide) htype hplain }⟩
  | tick => exact ⟨_, _, .nil, { h with sendQueue := h.sendQueue.append_heartbeat }⟩
  | send hq hbytes =>
      have hqueue := h.sendQueue
      rw [hq] at hqueue
      obtain ⟨rfl, hone⟩ := sendProtocol_inv hbytes
      have hplain := hqueue.plain _ List.mem_cons_self
      rcases hqueue.uncons with ⟨rfl, hrest⟩ | ⟨r, rs, hrs, rfl, hm, hrest⟩
      · exact ⟨_, _, .nil,
          { h with sendQueue := hrest, toServer := h.toServer.append_heartbeat }⟩
      · have htype := hqueue.tagged r (hrs ▸ List.mem_cons_self)
        exact ⟨_, _, .single (.send hrs),
          { h with
            sendQueue := hrest
            toServer := h.toServer.append (by decide) htype hplain hone }⟩
  | serverRecv hrecv =>
      rcases h.toServer.recv hord.1 hord.2 hrecv with ⟨rfl, hrest⟩ | ⟨r, rs, hrs, rfl, htype,
        hplain, hone, hrest⟩
      · exact ⟨_, _, .nil,
          { h with toServer := hrest, handling := h.handling.cons_heartbeat }⟩
      · exact ⟨_, _, .single (.serverRecv hrs),
          { h with
            toServer := hrest
            handling := h.handling.cons (by decide) htype hplain hone }⟩
  | serverFinish hm hrsp hbytes =>
      rename_i services m rsp bytes
      have hlen := length_payload_lt (h.handling.plain m hm) (h.handling.short m hm)
      by_cases hbeat : m = .heartbeat
      · subst hbeat
        rcases respond_cases (.inl rfl) hlen hrsp hbytes with ⟨-, rfl⟩ | ⟨htype, -⟩
        · exact ⟨_, _, .nil,
            { h with
              handling := h.handling.erase_heartbeat hm
              toClient := h.toClient.append_heartbeat }⟩
        · cases htype
      · obtain ⟨r, hr, rfl, hrest⟩ := h.handling.erase hm hbeat
        have htype := h.handling.tagged r hr
        rcases respond_cases (.inr htype) hlen hrsp hbytes with
          ⟨hbeat', -⟩ | ⟨-, p, hcall, rfl, hone⟩
        · exact absurd hbeat' hbeat
        · obtain ⟨hplain, hptype⟩ :=
            plain_of_handleMethodCall (h.handling.plain _ hm) hcall (hord p hcall)
          exact ⟨_, _, .single (.serverFinish hr hcall),
            { h with
              handling := hrest
              toClient := h.toClient.append (r := ⟨r.call, p⟩) (by decide) hptype hplain hone }⟩
  | clientRecv hrecv =>
      rename_i m conn
      rcases h.toClient.recv hord.1 hord.2 hrecv with ⟨rfl, hrest⟩ | ⟨r, rs, hrs, rfl, htype,
        -, -, hrest⟩
      · exact ⟨_, _, .nil, { h with toClient := hrest }⟩
      · have hshows := Shows.handleMethodResponse (s := { s with toClient := rs })
          (w := { w with toClient := conn.stream }) { h with toClient := hrest } r
        refine ⟨_, _, .single (.clientRecv hrs), ?_⟩
        rw [Calls.State.handleRecv, if_pos htype, State.handleRecv,
          if_neg (by rw [htype]; decide), if_pos htype]
        exact hshows
  | pop hk hp hc =>
      obtain ⟨k, hk₀, rfl⟩ := h.exists_call hk
      obtain ⟨r, rest, hchan, rfl, rfl⟩ := List.map_eq_cons_iff.mp hc
      exact ⟨_, _, .single (.pop hk₀ (waiting_of_ofPhase hp) hchan),
        h.setCall hk₀ { k with recvChan := rest, phase := .woken (.response r) } rfl⟩
  | timeout hk hp =>
      obtain ⟨k, hk₀, rfl⟩ := h.exists_call hk
      exact ⟨_, _, .single (.timeout hk₀ (waiting_of_ofPhase hp)),
        h.setCall hk₀ { k with phase := .woken .timeout } rfl⟩
  | erase hk hp =>
      obtain ⟨k, hk₀, rfl⟩ := h.exists_call hk
      obtain ⟨out, hout, rfl⟩ := woken_of_ofPhase hp
      have hset := h.setCall hk₀ { k with phase := .ended out } rfl
      refine ⟨_, _, .single (.erase hk₀ hout), { hset with outstanding := ?_ }⟩
      show update w.outstanding k.id none = update s.outstanding k.id none
      rw [h.outstanding]

end

end Wire
end XzmjxRpc
