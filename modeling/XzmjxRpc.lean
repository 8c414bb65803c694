import XzmjxRpc.Lib.Run
import XzmjxRpc.Lib.Frames
import XzmjxRpc.Lib.Blocks
import XzmjxRpc.Lib.Reader
import XzmjxRpc.Lib.Script
import XzmjxRpc.Lib.Checked
import XzmjxRpc.Lib.Digits
import XzmjxRpc.Lib.Zigzag
import XzmjxRpc.Lib.Varint
import XzmjxRpc.Lib.Metered
import XzmjxRpc.Lib.Multimap
import XzmjxRpc.Lib.Numeral
import XzmjxRpc.Lib.IPv6Text
import XzmjxRpc.Lib.Lexical
import XzmjxRpc.Utils.ByteArray
import XzmjxRpc.Utils.ByteArray.Invariant
import XzmjxRpc.Utils.ByteArray.Read
import XzmjxRpc.Utils.ByteArray.Iovec
import XzmjxRpc.Utils.ByteArray.Lagging
import XzmjxRpc.Utils.ByteArray.Content
import XzmjxRpc.Utils.ByteArray.Positional
import XzmjxRpc.Utils.ByteArray.File
import XzmjxRpc.Utils.FlatBuffer
import XzmjxRpc.Utils.Codec
import XzmjxRpc.Utils.Codec.Fixed
import XzmjxRpc.Utils.Codec.Vint
import XzmjxRpc.Utils.Codec.Strings
import XzmjxRpc.Utils.Config
import XzmjxRpc.Utils.Config.Lookup
import XzmjxRpc.Utils.Config.Store
import XzmjxRpc.Utils.ConfigVar
import XzmjxRpc.Utils.Env
import XzmjxRpc.Rpc.Ty
import XzmjxRpc.Rpc.Serializer
import XzmjxRpc.Rpc.Serializer.Bound
import XzmjxRpc.Rpc.Serializer.Items
import XzmjxRpc.Rpc.Serializer.Cut
import XzmjxRpc.Rpc.Serializer.Reuse
import XzmjxRpc.Rpc.Serializer.Written
import XzmjxRpc.Rpc.Serializer.Shortest
import XzmjxRpc.Rpc.Serializer.Chunked
import XzmjxRpc.Rpc.Serializer.Wrapped
import XzmjxRpc.Rpc.Serializer.Safe
import XzmjxRpc.Rpc.Protocol
import XzmjxRpc.Rpc.Protocol.Header
import XzmjxRpc.Net.Address
import XzmjxRpc.Net.Address.IPv6
import XzmjxRpc.Net.Address.Lookup
import XzmjxRpc.Net.Address.Compare
import XzmjxRpc.Net.Address.Mask
import XzmjxRpc.Net.Stream
import XzmjxRpc.Net.SocketRead
import XzmjxRpc.Net.SocketWrite
import XzmjxRpc.Net.FixedSize
import XzmjxRpc.Net.TcpServer
import XzmjxRpc.Rpc.Session
import XzmjxRpc.Rpc.Session.RoundTrip
import XzmjxRpc.Rpc.Session.Sequence
import XzmjxRpc.Rpc.Session.Forward
import XzmjxRpc.Rpc.Session.Throws
import XzmjxRpc.Rpc.Session.Chunked
import XzmjxRpc.Rpc.Heartbeat
import XzmjxRpc.Rpc.Client
import XzmjxRpc.Rpc.Client.Lifecycle
import XzmjxRpc.Rpc.Client.Reconnect
import XzmjxRpc.Rpc.Server
import XzmjxRpc.Rpc.Server.Chunked
import XzmjxRpc.Rpc.Server.Verdict
import XzmjxRpc.Rpc.Server.Registration
import XzmjxRpc.Rpc.Server.Registration.Invariant
import XzmjxRpc.Rpc.Calls
import XzmjxRpc.Rpc.Calls.Invariant
import XzmjxRpc.Rpc.Calls.Matching
import XzmjxRpc.Rpc.Calls.Outstanding
import XzmjxRpc.Rpc.Send
import XzmjxRpc.Rpc.Send.Framing
import XzmjxRpc.Rpc.Send.Whole
import XzmjxRpc.Rpc.Send.Fitting
import XzmjxRpc.Rpc.Wire
import XzmjxRpc.Rpc.Wire.Calls
import XzmjxRpc.Rpc.Wire.Refines
import XzmjxRpc.Rpc.Wire.Callers
import XzmjxRpc.Rpc.Wire.Chunked
import XzmjxRpc.Rpc.Server.Clients
import XzmjxRpc.Rpc.Server.Clients.Close
import XzmjxRpc.Rpc.Server.Clients.Descriptors
import XzmjxRpc.Rpc.Server.Clients.Invariant
import XzmjxRpc.Rpc.ServiceRegistry
import XzmjxRpc.Rpc.ServiceRegistry.Unregister
import XzmjxRpc.Rpc.ServiceRegistry.Disconnect
import XzmjxRpc.Rpc.ServiceRegistry.Announce
import XzmjxRpc.Rpc.ServiceRegistry.Sessions
import XzmjxRpc.Rpc.ServiceRegistry.Discover
import XzmjxRpc.Rpc.ServiceRegistry.Answer
import XzmjxRpc.Rpc.Cluster
import XzmjxRpc.Rpc.Cluster.Invariant
import XzmjxRpc.Rpc.Cluster.Discover
import XzmjxRpc.Rpc.ServiceRegistry.Locked
