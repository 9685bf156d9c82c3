-- SUMMARY: Buffered HTTP/1.1 responses (src/protocols/http/http_response.c).
import Keel.Drain.Write
import Keel.Message.Framing
import Keel.Message.Numeral

/-!
# Responses

`kl_http_response_build_iovec` is the one place that lays out a buffered response: status
line, header buffer, Content-Length, an optional keep-alive line, the empty line and the
body. The streamed form of a response shares the record.
-/

open Message

inductive KlHttpBodyMode where
  | none
  | buffer
  | file
  | stream
deriving DecidableEq, Repr

/-- The defaults are those of `kl_http_response_init`. -/
structure KlHttpResponse where
  status : Int := 200
  /-- `hdr_buf[0..hdr_len]`. -/
  hdrBuf : List UInt8 := []
  bodyMode : KlHttpBodyMode := .none
  body : List UInt8 := []
  fileSize : Nat := 0
  headRequest : Bool := false
  keepAlive : Bool := false
  /-- An allocator is set. -/
  alloc : Bool := true
  /-- A TLS session is bound. -/
  tls : Bool := false
  /-- `kl_handle_valid(conn_fd)`. -/
  connFd : Bool := false
  headersSent : Bool := false
  streamError : Bool := false
  streamEnded : Bool := false
  drainEnabled : Bool := false
  drain : KlDrainQueue := .init 0
deriving DecidableEq, Repr

namespace KlHttpResponse

/-! ## Status lines -/

/-- The registered reason phrases of `status_line_for`. -/
def reasonPhrases : List (Nat × String) :=
  [(200, "OK"), (201, "Created"), (202, "Accepted"), (203, "Non-Authoritative Information"),
   (204, "No Content"), (205, "Reset Content"), (206, "Partial Content"), (207, "Multi-Status"),
   (208, "Already Reported"), (226, "IM Used"), (300, "Multiple Choices"),
     (301, "Moved Permanently"),
   (302, "Found"), (303, "See Other"), (304, "Not Modified"), (305, "Use Proxy"),
   (307, "Temporary Redirect"), (308, "Permanent Redirect"), (400, "Bad Request"),
     (401, "Unauthorized"),
   (402, "Payment Required"), (403, "Forbidden"), (404, "Not Found"), (405, "Method Not Allowed"),
   (406, "Not Acceptable"), (407, "Proxy Authentication Required"), (408, "Request Timeout"),
   (409, "Conflict"), (410, "Gone"), (411, "Length Required"), (412, "Precondition Failed"),
   (413, "Payload Too Large"), (414, "URI Too Long"), (415, "Unsupported Media Type"),
   (416, "Range Not Satisfiable"), (417, "Expectation Failed"), (421, "Misdirected Request"),
   (422, "Unprocessable Entity"), (423, "Locked"), (424, "Failed Dependency"), (425, "Too Early"),
   (426, "Upgrade Required"), (428, "Precondition Required"), (429, "Too Many Requests"),
   (431, "Request Header Fields Too Large"), (451, "Unavailable For Legal Reasons"),
   (500, "Internal Server Error"), (501, "Not Implemented"), (502, "Bad Gateway"),
   (503, "Service Unavailable"), (504, "Gateway Timeout"), (505, "HTTP Version Not Supported"),
   (506, "Variant Also Negotiates"), (507, "Insufficient Storage"), (508, "Loop Detected"),
   (510, "Not Extended"), (511, "Network Authentication Required")]

/-- The reason phrase of a final code, empty if it has no registered one. -/
def reasonPhrase (code : Nat) : String := ((reasonPhrases.find? (·.1 = code)).map Prod.snd).getD ""

/-- The code that is sent: a final one as itself, an interim one or no code at all as 500. -/
def finalCode (code : Int) : Nat := if 200 ≤ code ∧ code ≤ 599 then code.toNat else 500

/-- A status line without its CR LF. -/
def statusText (code : Nat) : List UInt8 :=
  ascii "HTTP/1.1 " ++
    ([UInt8.ofNat (48 + code / 100), UInt8.ofNat (48 + code / 10 % 10),
      UInt8.ofNat (48 + code % 10)] ++ (32 :: ascii (reasonPhrase code)))

/-- `status_line_for`. -/
def statusLineFor (code : Int) : List UInt8 := statusText (finalCode code) ++ crlf

example : statusLineFor 204 = ascii "HTTP/1.1 204 No Content\r\n" := by decide
example : statusLineFor 299 = ascii "HTTP/1.1 299 \r\n" := by decide
example : statusLineFor 100 = ascii "HTTP/1.1 500 Internal Server Error\r\n" := by decide

/-! ## Headers -/

/-- `contains_crlf`. -/
def containsCrlf (s : List UInt8) : Bool := s.any fun b => b = 13 || b = 10

/-- A header line without its CR LF. -/
def headerText (name value : List UInt8) : List UInt8 := name ++ (ascii ": " ++ value)

/-- `kl_http_response_header`; `room` says whether the buffer could be grown. What a failed
call has appended is rolled back. -/
def header (res : KlHttpResponse) (name value : List UInt8) (room : Bool) : KlHttpResponse × Int :=
  if containsCrlf name || containsCrlf value then (res, -1)
  else if room then ({ res with hdrBuf := res.hdrBuf ++ (headerText name value ++ crlf) }, 0)
  else (res, -1)

/-! ## The layout -/

/-- `format_uint`. -/
def formatUint (n : Nat) : List UInt8 :=
  if n = 0 then [48] else Numeral.putDigits 10 (fun k => UInt8.ofNat (48 + k)) n n []

/-- The line of `format_content_length` without its CR LF. -/
def contentLengthText (n : Nat) : List UInt8 := ascii "Content-Length: " ++ formatUint n

/-- `format_content_length`. -/
def formatContentLength (n : Nat) : List UInt8 := contentLengthText n ++ crlf

/-- `kl_keepalive_hdr` without its CR LF. -/
def keepAliveText : List UInt8 := ascii "Connection: keep-alive"

/-- `kl_http_response_build_iovec` with room for `cap` entries. A FILE response gets its head
only. -/
def buildIovec (res : KlHttpResponse) (cap : Int) : Option (List (List UInt8)) :=
  let isFile : Bool := res.bodyMode = .file
  if res.bodyMode ≠ .buffer ∧ res.bodyMode ≠ .none ∧ !isFile then none
  else if cap < 7 then none
  else
    let clen := if isFile then res.fileSize else res.body.length
    some <| [statusLineFor res.status] ++ (if res.hdrBuf ≠ [] then [res.hdrBuf] else []) ++
      [formatContentLength clen] ++
      (if res.keepAlive then [keepAliveText ++ crlf] else []) ++
      [crlf] ++
      (if !isFile ∧ res.body ≠ [] ∧ !res.headRequest then [res.body] else [])

end KlHttpResponse
