import Jasonrpc.Lib.Machine
import Jasonrpc.Lib.Word
import Jasonrpc.Lib.Incremental
import Jasonrpc.Transport.ReadCore
import Jasonrpc.Transport.Codec
import Jasonrpc.Transport.Conservation
import Jasonrpc.Transport.Headers
import Jasonrpc.Transport.Netstrings
import Jasonrpc.Transport.Pieces
import Jasonrpc.Transport.Turn
import Jasonrpc.Transport.Stream
import Jasonrpc.Transport.Cap
import Jasonrpc.Transport.Buffer
import Jasonrpc.Transport.Arithmetic
import Jasonrpc.Json.Backend
import Jasonrpc.Protocol
import Jasonrpc.Server
import Jasonrpc.Server.Batch
import Jasonrpc.Server.Classify
import Jasonrpc.Server.Echo
import Jasonrpc.Integration.Http
import Jasonrpc.Integration.WebSocket
import Jasonrpc.Client
import Jasonrpc.Json.Text
import Jasonrpc.RoundTrip
import Jasonrpc.Params
import Jasonrpc.Transparent
import Jasonrpc.EndToEnd
import Jasonrpc.Forwarding
import Jasonrpc.Client.Decode
import Jasonrpc.Client.Multiplex
import Jasonrpc.Client.Shutdown
import Jasonrpc.Client.Wire
import Jasonrpc.Client.Registry
import Jasonrpc.Client.Correlation
import Jasonrpc.Client.Keys
import Jasonrpc.Client.Ownership
import Jasonrpc.Client.Uds
import Jasonrpc.Client.Reconnect
import Jasonrpc.Client.Attempts
import Jasonrpc.Client.Backoff
import Jasonrpc.Client.Replay
import Jasonrpc.Server.Connections
import Jasonrpc.Client.Peer
import Jasonrpc.System
import Jasonrpc.System.Settled
import Jasonrpc.Server.Replies
import Jasonrpc.Lib.CopyOnWrite
import Jasonrpc.Server.Sharing
import Jasonrpc.Lib.Resumption
import Jasonrpc.Server.Interleaving
import Jasonrpc.Integration.Hyper
import Jasonrpc.Client.Http
import Jasonrpc.System.Http
import Jasonrpc.System.Forward
import Jasonrpc.System.Gateway
import Jasonrpc.System.Reconnect
