import XzmjxRpc.Rpc.Server.Registration
import XzmjxRpc.Rpc.ServiceRegistry.Sessions

/-!
# XzmjxRpc.Rpc.Cluster

A registry and any number of servers that register with it: `RpcServer`
(`rpc/rpc_server.cpp`) on one end of each connection, `RpcServiceRegistry`
(`rpc/rpc_service_registry.cpp`) on the other.

`RpcServer.Step` and `Registry.Step` are put together here: what a server sends
is what the registry receives, in order, and a connection that a server has
closed or that broke ends at the registry some time later, with what was still
under way.  What the registry sends back is any heartbeat at any time.  The
registry handles one message or the end of one connection at a time: what its
lock lets overlap besides is in `ServiceRegistry.Locked`.

`delivered` is there for the statements; no step looks at it.
-/

namespace XzmjxRpc
namespace Cluster

/-- A connection that the registry has not seen the end of. -/
structure Link where
  /-- What was sent and the registry has not received yet. -/
  inflight : List Protocol := []
  /-- What it has received. -/
  delivered : List Protocol := []

/-- The servers, their connections and the registry. -/
structure State where
  servers : Nat → RpcServer.State
  links : Nat → Option Link
  registry : Registry.State

/-- Nobody has done anything yet. -/
def init : State := ⟨fun _ => {}, fun _ => none, Registry.init⟩

/-- What can happen next. -/
inductive Action where
  | server (i : Nat) (a : RpcServer.Action)
  /-- The registry accepts the connection of a server. -/
  | accept (i : Nat)
  /-- It receives the next message. -/
  | deliver (i : Nat)
  /-- It reads the end of the stream. -/
  | hangup (i : Nat)

/-- What a step of the server puts on the connection. -/
def wired (t : RpcServer.State) : RpcServer.Action → List Protocol
  | .send =>
      match t.chan with
      | msg :: _ => if t.session = some true ∧ t.broken = false then [msg] else []
      | [] => []
  | _ => []

/-- The connection after a step of the server. -/
def wire (t : RpcServer.State) (l : Option Link) : RpcServer.Action → Option Link
  | .bindRegistry true => some {}
  | a => l.map fun l => { l with inflight := l.inflight ++ wired t a }

namespace State

/-- Connection `i` becomes `l`. -/
def setLink (s : State) (i : Nat) (l : Option Link) : State :=
  { s with links := Function.update s.links i l }

/-- Server `i` becomes `t`. -/
def setServer (s : State) (i : Nat) (t : RpcServer.State) : State :=
  { s with servers := Function.update s.servers i t }

@[simp] theorem setLink_servers (s : State) (i : Nat) (l : Option Link) :
    (s.setLink i l).servers = s.servers := rfl

@[simp] theorem setLink_registry (s : State) (i : Nat) (l : Option Link) :
    (s.setLink i l).registry = s.registry := rfl

@[simp] theorem setLink_links_self (s : State) (i : Nat) (l : Option Link) :
    (s.setLink i l).links i = l := Function.update_self ..

@[simp] theorem setLink_links_of_ne (s : State) {i j : Nat} (h : j ≠ i) (l : Option Link) :
    (s.setLink i l).links j = s.links j := Function.update_of_ne h ..

@[simp] theorem setServer_links (s : State) (i : Nat) (t : RpcServer.State) :
    (s.setServer i t).links = s.links := rfl

@[simp] theorem setServer_registry (s : State) (i : Nat) (t : RpcServer.State) :
    (s.setServer i t).registry = s.registry := rfl

@[simp] theorem setServer_servers_self (s : State) (i : Nat) (t : RpcServer.State) :
    (s.setServer i t).servers i = t := Function.update_self ..

@[simp] theorem setServer_servers_of_ne (s : State) {i j : Nat} (h : j ≠ i)
    (t : RpcServer.State) : (s.setServer i t).servers j = s.servers j :=
  Function.update_of_ne h ..

end State

section
variable [Machine]

/-- The address that the registry makes of a peer and a port. -/
def providerAddr (peer : IPv4Address) (port : BitVec 32) : Bytes :=
  (peer.setPort (port.setWidth 16)).toString

variable (host : Nat → IPv4Address)

/-- One step; server `i` is at `host i`. -/
inductive Step : State → Action → State → Prop
  | server {s : State} {i : Nat} {a : RpcServer.Action} {t : RpcServer.State}
      (h : RpcServer.Step (s.servers i) a t) :
      Step s (.server i a) ((s.setServer i t).setLink i (wire (s.servers i) (s.links i) a))
  | accept {s : State} {i : Nat} {l : Link} {r : Registry.State} (hl : s.links i = some l)
      (h : Registry.Step s.registry (.accept i (some (host i))) r) :
      Step s (.accept i) { s with registry := r }
  | deliver {s : State} {i : Nat} {l : Link} {msg : Protocol} {rest : List Protocol}
      {r : Registry.State} (hl : s.links i = some l) (hmsg : l.inflight = msg :: rest)
      (h : Registry.Step s.registry (.receive i msg) r) :
      Step s (.deliver i)
        { s.setLink i (some ⟨rest, l.delivered ++ [msg]⟩) with registry := r }
  | hangup {s : State} {i : Nat} {l : Link} {r : Registry.State} (hl : s.links i = some l)
      (hend : (s.servers i).session ≠ some true ∨ (s.servers i).broken = true)
      (h : Registry.Step s.registry (.disconnect i) r) :
      Step s (.hangup i) { s.setLink i none with registry := r }

/-- A server is bound to the registry once and registers once, no connection
that the registry has not seen the end of is that of a server with the same
address, and no write to the registry is given up on a connection that goes on. -/
def OwnAddress (s : State) : Action → Prop
  | .server i a => RpcServer.Once (s.servers i) a ∧ a ≠ .giveUp ∧ (a = .bindRegistry true →
      ∀ j port, j ≠ i → s.links j ≠ none → (s.servers j).bound = some port →
        providerAddr (host j) port ≠ providerAddr (host i) (s.servers i).port)
  | _ => True

end

end Cluster
end XzmjxRpc
