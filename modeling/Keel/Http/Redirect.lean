-- SUMMARY: Following redirects, in the synchronous and the asynchronous client.
import Keel.Url.Parse

/-!
# Redirects

Both drivers wrap a client that sends one request and reports a response or an error. The
synchronous one is a loop over the hops. The asynchronous one keeps the state between two
completions in a `KlHttpRedirectClient`. What the servers answer, what the policy callback
answers and what the client refuses to send are given by a `Client`.
-/

open Message Url

structure KlHttpClientHeader where
  name : List UInt8
  value : List UInt8
deriving DecidableEq, Repr

structure KlHttpClientResponse where
  status : Int
  headers : List KlHttpClientHeader
  body : List UInt8 := []
deriving DecidableEq, Repr

/-- The errors that the drivers set themselves, and any other one of the client. -/
inductive KlError where
  | invalidArg
  | url
  | io
  | redirectLoop
  | redirectRefused
  | other (code : Nat)
deriving DecidableEq, Repr

/-- A request as it is handed to the client; no body is an empty one. -/
structure ClientRequest where
  method : List UInt8
  url : List UInt8
  headers : List KlHttpClientHeader
  body : List UInt8
deriving DecidableEq, Repr

/-- The surroundings of a redirect driver. -/
structure Client where
  /-- The configuration has a TLS factory; it names a proxy. -/
  tls : Bool
  proxied : Bool
  /-- Other reasons not to send a request, found before anything is sent. -/
  rejects : ClientRequest → Option KlError
  /-- What hop `i` brings. -/
  answer : Nat → Except KlError KlHttpClientResponse
  /-- The policy callback of the configuration, with its answer for the URL of hop `i`. -/
  onRedirect : Option (Nat → List UInt8 → Bool)
  /-- The asynchronous client of hop `i` completes inside its start call, with an error that it
  could not defer. -/
  inline : Nat → Bool
  inlineError : ∀ i, inline i = true → ∃ e, answer i = .error e

variable (w : Client)

/-- The checks that the client makes before it connects. -/
def Client.refuses (req : ClientRequest) : Option KlError :=
  match urlParse req.url with
  | none => some .url
  | some u =>
    if u.isHttps && !w.tls then some .url
    else if u.isUnix && w.proxied then some .invalidArg
    else w.rejects req

/-! ## Shared helpers -/

def isRedirect (status : Int) : Bool :=
  status == 301 || status == 302 || status == 303 || status == 307 || status == 308

def methodChangesToGet (status : Int) (method : List UInt8) : Bool :=
  if status == 307 || status == 308 then false
  else if status == 303 then !strcasecmp method (ascii "GET") && !strcasecmp method (ascii "HEAD")
  else strcasecmp method (ascii "POST") || strcasecmp method (ascii "PUT") ||
    strcasecmp method (ascii "PATCH")

def isCrossOrigin (a b : KlUrl) : Bool :=
  if a.isHttps ≠ b.isHttps then true
  else if a.isUnix ≠ b.isUnix then true
  else if a.isUnix then a.unixPath ≠ b.unixPath
  else if a.port ≠ b.port then true
  else if a.host.length ≠ b.host.length then true
  else !strcasecmp a.host b.host

def findLocation (resp : KlHttpClientResponse) : Option (List UInt8) :=
  (resp.headers.find? fun h => strcasecmp h.name (ascii "Location")).map (·.value)

/-- The headers that carry the caller's credentials. -/
def isCredential (name : List UInt8) : Bool :=
  strcasecmp name (ascii "Authorization") || strcasecmp name (ascii "Cookie") ||
    strcasecmp name (ascii "Proxy-Authorization")

def shouldDropHeader (name : List UInt8) (bodyDropped crossOrigin : Bool) : Bool :=
  strcasecmp name (ascii "Host") || (crossOrigin && isCredential name) ||
    (bodyDropped && (strcasecmp name (ascii "Content-Type") || strcasecmp name
      (ascii "Content-Length") ||
      strcasecmp name (ascii "Transfer-Encoding")))

def KL_HTTP_CLIENT_MAX_REQ_HEADERS : Nat := 64
def KL_HTTP_REDIRECT_DEFAULT_MAX : Nat := 10
/-- `sizeof(cur_method)` -/
def METHOD_MAX : Nat := 16

/-- The request of the caller, and the limit of `KlHttpRedirectConfig`. -/
structure Initial where
  method : List UInt8
  url : List UInt8
  headers : List KlHttpClientHeader
  body : List UInt8
  maxRedirects : Int := 0
deriving DecidableEq, Repr

variable (q : Initial)

def Initial.limit : Nat :=
  if 0 < q.maxRedirects then q.maxRedirects.toNat else KL_HTTP_REDIRECT_DEFAULT_MAX

/-- The headers that hop `i` sends. Both drivers compare with the original URL, from the second
hop on. -/
def Initial.filtered (i : Nat) (url body : List UInt8) : List KlHttpClientHeader :=
  let crossOrigin := if 0 < i then
      match urlParse q.url, urlParse url with
      | some a, some b => isCrossOrigin a b
      | _, _ => false
    else false
  q.headers.filter fun h => !shouldDropHeader h.name body.isEmpty crossOrigin

def Initial.request (i : Nat) (method url body : List UInt8) : ClientRequest :=
  { method, url, headers := q.filtered i url body, body }

/-- How a request ends. -/
inductive Outcome where
  | response (resp : KlHttpClientResponse)
  | error (e : KlError)
deriving DecidableEq, Repr

/-- Everything to be seen of a driver. -/
structure Visible where
  /-- The requests sent, in order. -/
  sent : List ClientRequest := []
  /-- The URLs that the policy callback was asked about. -/
  asked : List (List UInt8) := []
  outcome : Outcome
deriving DecidableEq, Repr

def Visible.sending (req : ClientRequest) (v : Visible) : Visible :=
  { v with sent := req :: v.sent }

/-- The policy callback is asked if there is one. -/
def Visible.asking (url : List UInt8) (v : Visible) : Visible :=
  if w.onRedirect.isSome then { v with asked := url :: v.asked } else v

def Client.permits (i : Nat) (url : List UInt8) : Bool :=
  match w.onRedirect with
  | none => true
  | some check => check i url

/-! ## The synchronous driver -/

/-- The variables of the loop. -/
structure Hop where
  index : Nat
  method : List UInt8
  url : List UInt8
  body : List UInt8
deriving DecidableEq, Repr

def Initial.first : Hop := ⟨0, q.method, q.url, q.body⟩

def Hop.request (h : Hop) : ClientRequest := q.request h.index h.method h.url h.body

/-- The next hop, after the method transformation. -/
def Hop.onto (h : Hop) (status : Int) (url : List UInt8) : Hop :=
  if methodChangesToGet status h.method then ⟨h.index + 1, ascii "GET", url, []⟩
  else ⟨h.index + 1, h.method, url, h.body⟩

/-- One iteration of the loop; `next` is the iterations after it. -/
def syncIteration (h : Hop) (next : Hop → Visible) : Visible :=
  match w.refuses (h.request q) with
  | some e => { outcome := .error e }
  | none =>
    Visible.sending (h.request q) <| match w.answer h.index with
      | .error e => { outcome := .error e }
      | .ok resp =>
        if !isRedirect resp.status then { outcome := .response resp }
        else
          match findLocation resp with
          | none => { outcome := .response resp }
          | some location =>
            match urlResolve h.url location KL_URL_MAX with
            | none => { outcome := .error .url }
            | some url =>
              Visible.asking w url <|
                if !w.permits h.index url then { outcome := .error .redirectRefused }
                else next (h.onto resp.status url)

/-- The loop with `left` iterations after this one. -/
def syncLoop (w : Client) (q : Initial) : Nat → Hop → Visible
  | 0, h => syncIteration w q h fun _ => { outcome := .error .redirectLoop }
  | left + 1, h => syncIteration w q h (syncLoop w q left)

def syncRequest : Visible :=
  if KL_HTTP_CLIENT_MAX_REQ_HEADERS < q.headers.length then { outcome := .error .invalidArg }
  else if KL_URL_MAX ≤ q.url.length then { outcome := .error .url }
  else if METHOD_MAX ≤ q.method.length then { outcome := .error .invalidArg }
  else syncLoop w q q.limit q.first

/-! ## The asynchronous driver -/

/-- The part of the client that changes from hop to hop. -/
structure KlHttpRedirectClient where
  redirectsDone : Nat := 0
  currentMethod : List UInt8
  currentUrl : List UInt8
  body : List UInt8
deriving DecidableEq, Repr

variable (rc : KlHttpRedirectClient)

def KlHttpRedirectClient.hop : Hop :=
  ⟨rc.redirectsDone, rc.currentMethod, rc.currentUrl, rc.body⟩

/-- The client with the next URL, after the method transformation. -/
def KlHttpRedirectClient.onto (status : Int) (url : List UInt8) : KlHttpRedirectClient :=
  if methodChangesToGet status rc.currentMethod then ⟨rc.redirectsDone + 1, ascii "GET", url, []⟩
  else ⟨rc.redirectsDone + 1, rc.currentMethod, url, rc.body⟩

/-- A completion of the inner client; `start` is the start of the next request. -/
def internalOnDone (start : KlHttpRedirectClient → Visible) : Visible :=
  match w.answer rc.redirectsDone with
  | .error e => { outcome := .error e }
  | .ok resp =>
    if !isRedirect resp.status then { outcome := .response resp }
    else if q.limit ≤ rc.redirectsDone then { outcome := .error .redirectLoop }
    else
      match findLocation resp with
      | none => { outcome := .response resp }
      | some location =>
        match urlResolve rc.currentUrl location KL_URL_MAX with
        | none => { outcome := .error .url }
        | some url =>
          Visible.asking w url <|
            if !w.permits rc.redirectsDone url then { outcome := .error .redirectRefused }
            else start (rc.onto resp.status url)

/-- `start_next_request` up to the completion that it leads to. The error of a start that failed
is `kl_http_redirect_last_error` of what the caller got: a NULL handle for the first one, a client
that reports `KL_ERR_IO` later. A completion inside the start call fails the first start and is
handled at once later. -/
def startNextRequest (start : KlHttpRedirectClient → Visible) : Visible :=
  match w.refuses (rc.hop.request q) with
  | some _ => { outcome := .error (if rc.redirectsDone = 0 then .invalidArg else .io) }
  | none =>
    Visible.sending (rc.hop.request q) <|
      if rc.redirectsDone = 0 ∧ w.inline 0 then { outcome := .error .invalidArg }
      else internalOnDone w q rc start

/-- The completions one after the other. A client with `fuel` redirects left starts no request
when it has none, so what stands for that is never reached. -/
def asyncRun (w : Client) (q : Initial) : Nat → KlHttpRedirectClient → Visible
  | 0, rc => startNextRequest w q rc fun _ => { outcome := .error .redirectLoop }
  | fuel + 1, rc => startNextRequest w q rc (asyncRun w q fuel)

def redirectStart : Visible :=
  if KL_HTTP_CLIENT_MAX_REQ_HEADERS < q.headers.length then { outcome := .error .invalidArg }
  else if METHOD_MAX ≤ q.method.length then { outcome := .error .invalidArg }
  else if KL_URL_MAX ≤ q.url.length then { outcome := .error .invalidArg }
  else asyncRun w q q.limit ⟨0, q.method, q.url, q.body⟩
