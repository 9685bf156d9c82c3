-- SUMMARY: The stream table of an HTTP/2 server and its session callbacks.
import Keel.Limits
import Keel.Http2.Life
import Keel.Message.Framing
import Keel.Reentrant.Machine
import Keel.Table.SwapRemove

/-!
# The HTTP/2 server connection

The session reports requests, data, ends and resets of streams. The connection keeps the
streams that are not answered yet in a table, in no particular order, and gives a stream up by
moving the last one into its place. The answers of the code around it (allocations, the
middleware, the body reader, the handler, the session) come with each call; the flush is a
hook, since the session may report resets from inside it.
-/

open Message SwapRemove Reentrant

namespace Http2

def KL_MAX_HEADERS : Nat := 64
def MAX_FILE_SIZE : Int := 16 * 1024 * 1024

inductive KlHttpBodyMode where
  | none
  | buffer (body : List UInt8)
  | file (size : Int)
  | stream

/-- What `h2_submit_response` reads of a response. -/
structure KlHttpResponse where
  status : Nat
  bodyMode : KlHttpBodyMode
  headRequest : Bool

/-- A route, with whether it has a body reader factory and a handler. -/
structure KlHttpRoute where
  bodyReader : Bool
  handler : Bool

structure KlHttpRequest where
  method : List UInt8
  path : List UInt8
  query : Option (List UInt8)
  headers : List (List UInt8 × List UInt8)
  contentLength : Nat

structure KlHttp2ServerStream where
  streamId : Nat
  req : KlHttpRequest
  res : KlHttpResponse
  bodyReader : Bool
  route : Option KlHttpRoute
  routeResult : Nat
  readerLazy : Bool
  bodyReceived : Nat
  responseSubmitted : Bool

/-- The connection, and the log of what happened to its streams. -/
structure KlHttp2ServerConn where
  streams : List KlHttp2ServerStream
  maxStreams : Nat
  /-- `max_body_size` of the connection. -/
  maxBodySize : Nat
  /-- `kl_http_router_match`. -/
  router : List UInt8 → List UInt8 → Nat × Option KlHttpRoute
  upgrading : Bool
  log : List (Nat × StreamEvent)

/-- How the read of a response file ends. -/
inductive FileRead where
  | noMemory
  | short
  | whole (data : List UInt8)

/-- What the code around a callback answers while it runs. -/
structure Answers where
  /-- The header storage can be had. -/
  storage : Bool
  responseInit : Bool
  /-- What the HTTP/1.1 phase left can be taken over. -/
  carry : Bool
  /-- Whether the middleware stops the request, and the response it leaves. -/
  middleware : Bool × KlHttpResponse
  /-- The factory makes a reader. -/
  reader : Bool
  /-- The reader takes the data. -/
  takes : Bool
  postMiddleware : Bool × KlHttpResponse
  /-- The response that the handler leaves. -/
  handler : KlHttpResponse
  file : FileRead
  /-- The session takes the response. -/
  submit : Bool
  wantWrite : Bool

namespace KlHttp2ServerConn

variable (h2c : KlHttp2ServerConn)

def record (id : Nat) (ev : StreamEvent) : KlHttp2ServerConn :=
  { h2c with log := h2c.log ++ [(id, ev)] }

/-! ## The table -/

/-- `h2_stream_find`: the slot of a stream. -/
def streamFind (id : Nat) : Option Nat := h2c.streams.findIdx? (·.streamId = id)

/-- A slot written anew. -/
def write (i : Nat) (stream : KlHttp2ServerStream) : KlHttp2ServerConn :=
  { h2c with streams := h2c.streams.set i stream }

/-- `h2_stream_create`: a new stream in the slot behind the last one. -/
def streamCreate (stream : KlHttp2ServerStream) : Option KlHttp2ServerConn :=
  if h2c.maxStreams ≤ h2c.streams.length then none
  else some { h2c with streams := h2c.streams ++ [stream] }

/-- `h2_stream_destroy` of a slot. A slot that is not live is left alone. -/
def streamDestroy (i : Nat) : KlHttp2ServerConn :=
  match h2c.streams[i]? with
  | none => h2c
  | some stream =>
    let h2c := if stream.bodyReader then h2c.record stream.streamId .readerDestroyed else h2c
    { h2c with streams := swapRemove h2c.streams i }

/-! ## Responses -/

/-- `kl_http_response_error`. -/
def responseError (res : KlHttpResponse) (code : Nat) (message : String) : KlHttpResponse :=
  { res with status := code, bodyMode := .buffer (ascii message) }

/-- `h2_submit_500`: the text goes out unless the request was a HEAD. -/
def submit500 (stream : KlHttp2ServerStream) (message : String) : KlHttp2ServerConn :=
  h2c.record stream.streamId (.submitted 500 (if stream.res.headRequest then [] else ascii message))

/-- `h2_submit_response` of the stream in a slot, with its result. -/
def submitResponse (i : Nat) (stream : KlHttp2ServerStream) (ans : Answers) :
    KlHttp2ServerConn × Int :=
  if stream.responseSubmitted then (h2c, 0)
  else
    let stream := { stream with responseSubmitted := true }
    let h2c := h2c.write i stream
    let res := stream.res
    let finish (body : List UInt8) : KlHttp2ServerConn × Int :=
      (h2c.record stream.streamId (.submitted res.status (if res.headRequest then [] else body)),
        if ans.submit then 0 else -1)
    match res.bodyMode with
    | .none => finish []
    | .buffer body => finish body
    | .stream => (h2c.submit500 stream "Streaming responses not supported over HTTP/2", 0)
    | .file size =>
      if MAX_FILE_SIZE < size then (h2c.submit500 stream "File too large for HTTP/2 response", 0)
      else if 0 < size ∧ res.headRequest = false then
        match ans.file with
        | .noMemory => (h2c.submit500 stream "Internal server error", 0)
        | .short => (h2c.submit500 stream "File shorter than its declared size", 0)
        | .whole data => finish data
      else finish []

end KlHttp2ServerConn

/-- What is left to do behind a flush: return. -/
inductive H2Frame where
  | flush (rc : Int)
deriving DecidableEq

abbrev H2Out := Out KlHttp2ServerConn H2Frame Int

namespace KlHttp2ServerConn

variable (h2c : KlHttp2ServerConn) (i : Nat)

/-- `h2_answer_and_release`: the stream is gone before the flush. -/
def answerAndRelease (stream : KlHttp2ServerStream) (ans : Answers) : H2Out :=
  let r := h2c.submitResponse i stream ans
  let h2c := r.1.streamDestroy i
  let rc := if r.2 < 0 then -1 else 0
  if ans.wantWrite then .call h2c (.flush rc) else .done h2c rc

/-- The stream in a slot, answered with an error. -/
def answerError (stream : KlHttp2ServerStream) (code : Nat) (message : String) (ans : Answers) :
    H2Out :=
  let stream := { stream with res := responseError stream.res code message }
  (h2c.write i stream).answerAndRelease i stream ans

variable (id : Nat)

/-- `h2_refuse_stream`. -/
def refuseStream (status : Nat) (body : String) (ans : Answers) : H2Out :=
  .done (h2c.record id (.submitted status (ascii body))) (if ans.submit then 0 else -1)

/-! ## Requests -/

/-- A request as the session reports it. -/
structure Reported where
  method : List UInt8
  path : List UInt8
  authority : List UInt8
  headers : List (List UInt8 × List UInt8)

def Reported.hasHost (r : Reported) : Bool := r.headers.any fun h => h.1.map lower = ascii "host"

/-- The authority becomes a host header unless there is one. -/
def Reported.injectHost (r : Reported) : Bool := r.authority ≠ [] && !r.hasHost

/-- The digits of a content-length in a `size_t`. -/
def parseLength : Nat → List UInt8 → Option Nat
  | n, [] => some n
  | n, c :: rest =>
    if c < 48 ∨ 57 < c then none
    else if SIZE_MAX / 10 < n then none
    else parseLength ((n * 10 + (c.toNat - 48)) % (SIZE_MAX + 1)) rest

/-- The content-length of a request: absent, or the last one, or `none` when one is not valid. -/
def contentLength : Option Nat → List (List UInt8 × List UInt8) → Option (Option Nat)
  | cl, [] => some cl
  | cl, (name, value) :: rest =>
    if name.map lower = ascii "content-length" then
      if value = [] then none
      else (parseLength 0 value).bind fun n => contentLength (some n) rest
    else contentLength cl rest

/-- The request of a stream. -/
def Reported.request (r : Reported) (length : Nat) : KlHttpRequest :=
  { method := r.method
    path := r.path.takeWhile (· ≠ 63)
    query := if 63 ∈ r.path then some ((r.path.dropWhile (· ≠ 63)).drop 1) else none
    headers := r.headers ++ if r.injectHost then [(ascii "host", r.authority)] else []
    contentLength := length }

/-- A slot as `h2_stream_create` leaves it. -/
def blank : KlHttp2ServerStream :=
  { streamId := id, req := ⟨[], [], none, [], 0⟩, res := ⟨0, .none, false⟩, bodyReader := false,
    route := none, routeResult := 0,
    readerLazy := false, bodyReceived := 0, responseSubmitted := false }

/-- The stream of a request that can be served, with the response it starts from. -/
def accept (r : Reported) (length : Nat) : KlHttp2ServerStream :=
  let req := r.request length
  let m := h2c.router req.method req.path
  { blank id with
    req
    res := { status := 200, bodyMode := .none, headRequest := r.method = ascii "HEAD" }
    routeResult := m.1
    route := m.2 }

/-- The reader of a request: made at once for a body of known length, on the first data when the
length is not given. -/
def prepareReader (stream : KlHttp2ServerStream) (length : Option Nat) (ans : Answers) : H2Out :=
  if (stream.route.any (·.bodyReader)) && length.isNone then
    .done (h2c.write i { stream with readerLazy := true }) 0
  else if (stream.route.any (·.bodyReader)) && 0 < stream.req.contentLength then
    if ans.reader then
      .done ((h2c.record stream.streamId .readerMade).write i { stream with bodyReader := true }) 0
    else h2c.answerError i stream 415 "Unsupported Media Type" ans
  else .done h2c 0

/-- The part of `h2_cb_on_request` behind the creation of the stream in slot `i`. -/
def serveRequest (id : Nat) (r : Reported) (ans : Answers) : H2Out :=
  if ans.storage = false then .done (h2c.streamDestroy i) (-1)
  else
    match contentLength none r.headers with
    | none => .done (h2c.streamDestroy i) (-1)
    | some length =>
      if ans.responseInit = false then .done (h2c.streamDestroy i) (-1)
      -- stream 1 of an upgrade takes over from the HTTP/1.1 phase, whose middleware has run
      else if h2c.upgrading ∧ id = 1 ∧ ans.carry = false then .done (h2c.streamDestroy i) (-1)
      else
        let stream := h2c.accept id r (length.getD 0)
        let h2c := (h2c.record id .accepted).write i stream
        if h2c.upgrading ∧ id = 1 then h2c.prepareReader i stream length ans
        else
          let stream := { stream with res := ans.middleware.2 }
          let h2c := h2c.write i stream
          if ans.middleware.1 then h2c.answerAndRelease i stream ans
          else h2c.prepareReader i stream length ans

/-- `h2_cb_on_request`. -/
def onRequest (r : Reported) (ans : Answers) : H2Out :=
  let h2c := h2c.record id .requested
  if KL_MAX_HEADERS < r.headers.length ∨
      (r.injectHost = true ∧ KL_MAX_HEADERS ≤ r.headers.length) then
    h2c.refuseStream id 431 "Request Header Fields Too Large" ans
  else
    match h2c.streamCreate (blank id) with
    | none => h2c.refuseStream id 503 "Service Unavailable" ans
    | some h2c => h2c.serveRequest (h2c.streams.length - 1) id r ans

/-! ## Data, end and reset -/

/-- The limit on the body and then the reader, for data that a stream can take. -/
def takeData (stream : KlHttp2ServerStream) (data : List UInt8) (ans : Answers) : H2Out :=
  if 0 < h2c.maxBodySize ∧ h2c.maxBodySize - stream.bodyReceived < data.length then
    (if stream.bodyReader then h2c.record stream.streamId .readerError else h2c).answerError i
      stream 413 "Payload Too Large" ans
  else
    let stream :=
      if 0 < h2c.maxBodySize then { stream with bodyReceived := stream.bodyReceived + data.length }
      else stream
    let h2c := h2c.write i stream
    if stream.bodyReader then
      let h2c := h2c.record stream.streamId (.readerData data)
      if ans.takes then .done h2c 0
      else (h2c.record stream.streamId .readerError).answerError i stream 413 "Payload Too Large"
        ans
    else .done h2c 0

/-- `h2_cb_on_data`. -/
def onData (data : List UInt8) (ans : Answers) : H2Out :=
  match h2c.streamFind id with
  | none => .done h2c 0
  | some i =>
    match h2c.streams[i]? with
    | none => .done h2c 0
    | some stream =>
      if stream.readerLazy ∧ stream.bodyReader = false then
        let stream := { stream with readerLazy := false }
        let h2c := h2c.write i stream
        if ans.reader then
          let stream := { stream with bodyReader := true }
          ((h2c.record stream.streamId .readerMade).write i stream).takeData i stream data ans
        else h2c.answerError i stream 415 "Unsupported Media Type" ans
      else h2c.takeData i stream data ans

/-- The handler, or the error for a request without one. -/
def respond (stream : KlHttp2ServerStream) (ans : Answers) : H2Out :=
  if stream.routeResult = 200 ∧ stream.route.any (·.handler) then
    let h2c := h2c.record stream.streamId .handled
    let stream := { stream with res := ans.handler }
    (h2c.write i stream).answerAndRelease i stream ans
  else if stream.routeResult = 405 then h2c.answerError i stream 405 "Method Not Allowed" ans
  else h2c.answerError i stream 404 "Not Found" ans

/-- `h2_cb_on_stream_end`. -/
def onStreamEnd (ans : Answers) : H2Out :=
  match h2c.streamFind id with
  | none => .done h2c 0
  | some i =>
    match h2c.streams[i]? with
    | none => .done h2c 0
    | some stream =>
      let h2c := if stream.bodyReader then h2c.record stream.streamId .readerComplete else h2c
      let stream := { stream with res := ans.postMiddleware.2 }
      let h2c := h2c.write i stream
      if ans.postMiddleware.1 then h2c.answerAndRelease i stream ans
      else h2c.respond i stream ans

/-- `h2_cb_on_stream_reset`. -/
def onStreamReset : H2Out :=
  let h2c := h2c.record id .reset
  match h2c.streamFind id with
  | none => .done h2c 0
  | some i =>
    match h2c.streams[i]? with
    | none => .done h2c 0
    | some stream =>
      let h2c := if stream.bodyReader then h2c.record stream.streamId .readerError else h2c
      .done (h2c.streamDestroy i) 0

/-- The loop of `kl_http2_server_cleanup`: the last stream goes first. -/
def dropAll : Nat → KlHttp2ServerConn → KlHttp2ServerConn
  | 0, h2c => h2c
  | n + 1, h2c =>
    match h2c.streams.getLast? with
    | none => h2c
    | some stream =>
      dropAll n ((h2c.record stream.streamId .dropped).streamDestroy (h2c.streams.length - 1))

end KlHttp2ServerConn

/-- The callbacks of the session, the bracket around stream 1 of an upgrade, and the end of the
connection. -/
inductive H2Op where
  | onRequest (id : Nat) (r : KlHttp2ServerConn.Reported) (ans : Answers)
  | onData (id : Nat) (data : List UInt8) (ans : Answers)
  | onStreamEnd (id : Nat) (ans : Answers)
  | onStreamReset (id : Nat)
  | setUpgrading (on : Bool)
  | cleanup

/-- The callbacks, with the flush as the only hook. -/
def machine : Machine KlHttp2ServerConn H2Op H2Frame Unit Int where
  enter
    | .onRequest id r ans, h2c => h2c.onRequest id r ans
    | .onData id data ans, h2c => h2c.onData id data ans
    | .onStreamEnd id ans, h2c => h2c.onStreamEnd id ans
    | .onStreamReset id, h2c => h2c.onStreamReset id
    | .setUpgrading on, h2c => .done { h2c with upgrading := on } 0
    | .cleanup, h2c => .done (KlHttp2ServerConn.dropAll h2c.streams.length h2c) 0
  resume
    | .flush rc, _, h2c => .done h2c rc

/-- The session starts each stream at most once. -/
def Fresh (h2c : KlHttp2ServerConn) : H2Op → Prop
  | .onRequest id _ _ => (id, StreamEvent.requested) ∉ h2c.log
  | _ => True

end Http2
