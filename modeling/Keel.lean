import Keel.Stream.Wakeup
import Keel.Stream.Arming
import Keel.Http.Sweep
import Keel.Http.PooledReuse
import Keel.Http.Cors
import Keel.Http.Dispatch
import Keel.Connect.Progress
import Keel.Datagram.Stability
import Keel.Datagram.Sticky
import Keel.Datagram.Backpressure
import Keel.Datagram.Lifecycle
import Keel.Datagram.Abort
import Keel.Drain.Fidelity
import Keel.Http.ResponseFraming
import Keel.Http.Compress
import Keel.Http.StreamRoundTrip
import Keel.Timer.Service
import Keel.Resolver.Requests
import Keel.Http.Router
import Keel.Http.RedirectRuns
import Keel.Http.ClientPoolRuns
import Keel.Http.MultipartRoundTrip
import Keel.Proxy.Ingest
import Keel.Event.Dispatch
import Keel.ThreadPool.Threads
import Keel.Http2.ServerStreams
import Keel.Http2.Fields
import Keel.Dns.TcpStream
import Keel.WebSocket.Unmask
import Keel.Base64
import Keel.Utf8
import Keel.CivilTime
