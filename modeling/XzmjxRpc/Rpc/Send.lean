import Mathlib.Logic.Function.Basic
import XzmjxRpc.Lib.Run
import XzmjxRpc.Net.SocketWrite
import XzmjxRpc.Rpc.Protocol

/-!
# XzmjxRpc.Rpc.Send

Coroutines sending on one session: `RpcSession::sendProtocol`
(`rpc/rpc_session.cpp`) with the loop of `Stream::writeFixedSize`
(`net/stream.cpp`), as a step relation.  Any number of coroutines send any
messages; one step is a call, the lock, one round of the loop, or the return.

No caller looks at why a send failed: `RpcClient::handleSend` logs it and
takes the next message off its queue, the response coroutines of `RpcServer`
drop the result.  Either way the coroutine may send again (`Phase.idle`), and
so may the others.

`sent` and `torn` are there for the statements: which messages `sendProtocol`
was called with, and whether one was given up with only a part of it written.
-/

namespace XzmjxRpc
namespace Send

/-- The default `base_size` of a `ByteArray`, which `encode` leaves as it is. -/
def defaultBaseSize : Nat := 4096

/-- Where a coroutine is in `sendProtocol`. -/
inductive Phase where
  | idle
  /-- It has encoded its message and waits for `m_mutex`. -/
  | waiting (bt : ByteArray Byte)
  /-- In `writeFixedSize(bt, length)`, holding the mutex. -/
  | writing (bt : ByteArray Byte) (length : Nat) (left : Int)
  /-- Its write ran off the chain of nodes; the mutex stays locked. -/
  | crashed (bt : ByteArray Byte)

/-- A session, seen from its senders. -/
structure State where
  senders : Nat → Phase
  /-- The coroutine that holds `m_mutex`. -/
  mutex : Option Nat
  wire : Bytes
  sent : List Protocol
  torn : Bool

/-- A session nobody has sent on. -/
def init : State where
  senders _ := .idle
  mutex := none
  wire := []
  sent := []
  torn := false

/-- Only a part of the buffer's content is behind the cursor. -/
def partlyWritten (bt : ByteArray Byte) : Bool := 0 < bt.position && bt.position < bt.size

namespace State

/-- Coroutine `c` is in phase `p`. -/
def setSender (s : State) (c : Nat) (p : Phase) : State :=
  { s with senders := Function.update s.senders c p }

/-- `sendProtocol(msg)` up to the lock. -/
def call (s : State) (c : Nat) (msg : Protocol) (bt : ByteArray Byte) : State :=
  { s.setSender c (.waiting bt) with sent := msg :: s.sent }

/-- The lock is taken, and `writeFixedSize(bt, bt->getSize())` starts:
`int left = length`. -/
def acquire (s : State) (c : Nat) (bt : ByteArray Byte) : State :=
  { s.setSender c (.writing bt bt.size (toInt bt.size)) with mutex := some c }

/-- `sendProtocol` returns, and its `unique_lock` releases the mutex. -/
def finish (s : State) (c : Nat) (bt : ByteArray Byte) : State :=
  { s.setSender c .idle with mutex := none, torn := s.torn || partlyWritten bt }

/-- One round of `while (left > 0)` in which `write` returned `rt` and put
`bytes` on the wire. -/
def wrote (s : State) (c length : Nat) (left rt : Int) (bt : ByteArray Byte) (bytes : Bytes) :
    State :=
  let s := { s with wire := s.wire ++ bytes }
  if rt ≤ 0 then s.finish c bt else s.setSender c (.writing bt length (left - rt))

end State

/-- What can happen next. -/
inductive Action where
  | call (c : Nat) (msg : Protocol)
  | acquire (c : Nat)
  | write (c : Nat) (reply : Reply)
  | finish (c : Nat)

/-- One step of the session. -/
inductive Step [Machine] : State → Action → State → Prop
  /-- A coroutine calls `sendProtocol(msg)`; `bt` is the chunked buffer that
  `encode` fills. -/
  | call {s : State} {c : Nat} {msg : Protocol} {f : FlatBuffer Byte} {bt : ByteArray Byte}
      (hp : s.senders c = .idle) (hf : msg.encode = .ok f) (hbt : bt.Refines f)
      (hbase : bt.baseSize = defaultBaseSize) : Step s (.call c msg) (s.call c msg bt)
  | acquire {s : State} {c : Nat} {bt : ByteArray Byte} (hp : s.senders c = .waiting bt)
      (hm : s.mutex = none) : Step s (.acquire c) (s.acquire c bt)
  | write {s : State} {c length : Nat} {left rt : Int} {bt bt' : ByteArray Byte} {bytes : Bytes}
      {reply : Reply} (hp : s.senders c = .writing bt length left) (hleft : 0 < left)
      (hw : socketWrite reply bt length = .ok (rt, bt', bytes)) :
      Step s (.write c reply) (s.wrote c length left rt bt' bytes)
  | fault {s : State} {c length : Nat} {left : Int} {bt : ByteArray Byte} {e : Fault}
      {reply : Reply} (hp : s.senders c = .writing bt length left) (hleft : 0 < left)
      (hw : socketWrite reply bt length = .error e) :
      Step s (.write c reply) (s.setSender c (.crashed bt))
  | finish {s : State} {c length : Nat} {left : Int} {bt : ByteArray Byte}
      (hp : s.senders c = .writing bt length left) (hleft : left ≤ 0) :
      Step s (.finish c) (s.finish c bt)

/-- A state some run from a fresh session leads to. -/
def Reachable [Machine] (s : State) : Prop := ∃ as, Lts.Run Step init as s

/-- The bytes of a message. -/
def encoded [Machine] (msg : Protocol) : Bytes :=
  match msg.encode with
  | .ok bt => bt.data
  | .error _ => []

/-- The bytes on the wire begin a concatenation of whole encodings of messages
that were sent. -/
def State.Framed [Machine] (s : State) : Prop :=
  ∃ ms : List Protocol, (∀ m ∈ ms, m ∈ s.sent) ∧ s.wire <+: (ms.map encoded).flatten

/-- A message too long for `write`, which faults on it. -/
def Phase.TooLong : Phase → Prop
  | .writing bt _ _ => defaultBaseSize < bt.size
  | _ => False

/-- Once a send was given up inside its message, the transport takes no more
bytes. -/
def SilentAfterTorn (s : State) : Action → Prop
  | .write c (.sendmsg rt) => s.torn = true → rt ≤ 0 ∨ (s.senders c).TooLong
  | _ => True

end Send
end XzmjxRpc
