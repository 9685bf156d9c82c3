-- SUMMARY: The streaming multipart reader.
import Keel.Limits
import Keel.Message.Framing
import Keel.Search.Word

/-!
# The multipart reader

Bytes are pushed into an input buffer, and a consumer pulls events out of it. The loop of
`kl_http_multipart_next` is written as calls from one parser state to the next. Buffers grow
without failing except at their limits.
-/

open Message WordSearch

inductive KlHttpMultipartParserState where
  | preamble | afterBoundary | headers | body | done | error
deriving DecidableEq

inductive KlHttpMultipartErrorCode where
  | none | malformed | partTooLarge | totalTooLarge | tooManyParts | headersTooLarge | inputOverflow
      | prematureEof
deriving DecidableEq

/-- The caps, each without effect at 0. -/
structure KlHttpMultipartConfig where
  maxPartSize : Nat
  maxTotalSize : Nat
  maxParts : Nat
  maxHeadersSize : Nat
  maxInputBuffer : Nat

structure KlHttpMultipartPartMeta where
  name : List UInt8
  filename : Option (List UInt8)
  contentType : Option (List UInt8)
deriving DecidableEq

inductive KlHttpMultipartEvent where
  | partBegin (part : KlHttpMultipartPartMeta)
  | partData (data : List UInt8)
  | partEnd
  | done
  | needData
  | error
deriving DecidableEq

structure KlHttpMultipartReader where
  delimiter : List UInt8
  config : KlHttpMultipartConfig
  state : KlHttpMultipartParserState
  lastError : KlHttpMultipartErrorCode
  input : List UInt8
  inputConsumed : Nat
  streamEnded : Bool
  totalReceived : Nat
  currentPartSize : Nat
  partsBegun : Nat
  hdr : List UInt8

namespace Multipart

def KL_HTTP_MP_MAX_BOUNDARY : Nat := 70

/-! ## Header parsing -/

/-- The position of the quote that closes a quoted string, past its escapes. -/
def quoteClose : List UInt8 → Option Nat
  | [] => none
  | 92 :: [] => none
  | 92 :: _ :: rest => (quoteClose rest).map (· + 2)
  | c :: rest => if c = 34 then some 0 else (quoteClose rest).map (· + 1)

/-- What follows the first parameter `needle` of a value. The fuel is the length of the value. -/
def findParamFrom (needle : List UInt8) : Nat → Option UInt8 → List UInt8 → Option (List UInt8)
  | 0, _, _ => none
  | _ + 1, _, [] => none
  | fuel + 1, prev, c :: rest =>
    if (c :: rest).length < needle.length then none
    else if c = 34 then
      match quoteClose rest with
      | none => none
      | some j => findParamFrom needle fuel (some 34) (rest.drop (j + 1))
    else if prev.any fun p => p ≠ 59 ∧ p ≠ 32 ∧ p ≠ 9 then findParamFrom needle fuel (some c) rest
    else if ((c :: rest).take needle.length).map lower = needle.map lower then
      some ((c :: rest).drop needle.length)
    else findParamFrom needle fuel (some c) rest

def findParam (val needle : List UInt8) : Option (List UInt8) :=
  if needle.length = 0 then none else findParamFrom needle val.length none val

def hasCtl (s : List UInt8) : Bool := s.any fun c => c < 32 ∨ c = 127

/-- The value of a parameter: a quoted string, or a token up to a semicolon. -/
def paramValue : List UInt8 → Option (List UInt8)
  | 34 :: rest => (quoteClose rest).map (rest.take ·)
  | rest => some (trimEnd (rest.takeWhile (· ≠ 59)))

/-- The name and the file name of a Content-Disposition value. -/
def parseDisposition (val : List UInt8) : Option (List UInt8 × Option (List UInt8)) := do
  let name ← paramValue (← findParam val (ascii "name="))
  if name.length = 0 ∨ hasCtl name then none
  else
    match findParam val (ascii "filename=") with
    | none => some (name, none)
    | some rest =>
      let filename ← paramValue rest
      if hasCtl filename then none else some (name, some filename)

/-- What the header lines have given so far. -/
structure Collected where
  disposition : Option (List UInt8 × Option (List UInt8))
  contentType : Option (List UInt8)

/-- One header line. -/
def parseLine (acc : Collected) (line : List UInt8) : Option Collected :=
  if 58 ∈ line then
    let name := line.takeWhile (· ≠ 58)
    let val := ((line.dropWhile (· ≠ 58)).drop 1).dropWhile (· = 32)
    if name.map lower = ascii "content-disposition" then
      (parseDisposition val).map fun d => { acc with disposition := some d }
    else if name.map lower = ascii "content-type" then some { acc with contentType := some val }
    else some acc
  else some acc

/-- The loop over the header lines. The fuel is the length of the block. -/
def parseLines : Nat → Collected → List UInt8 → Option Collected
  | 0, acc, _ => some acc
  | _ + 1, acc, [] => some acc
  | fuel + 1, acc, c :: rest =>
    match find crlf (c :: rest) with
    | some 0 => some acc
    | some k => (parseLine acc ((c :: rest).take k)).bind fun acc =>
      parseLines fuel acc ((c :: rest).drop (k + 2))
    | none => parseLine acc (c :: rest)

/-- `mp_parse_headers` of a header block. -/
def parseHeaders (hdr : List UInt8) : Option KlHttpMultipartPartMeta := do
  let acc ← parseLines hdr.length { disposition := none, contentType := none } hdr
  let (name, filename) ← acc.disposition
  some { name, filename, contentType := acc.contentType }

/-- `mp_grow_buf`: whether a buffer may grow. -/
def growBuf (curLen additional capLimit : Nat) : Bool :=
  curLen + additional ≤ SIZE_MAX ∧ (capLimit = 0 ∨ curLen + additional ≤ capLimit)

end Multipart

open Multipart

namespace KlHttpMultipartReader

/-- The reader that the factory makes for a boundary. -/
def new (boundary : List UInt8) (config : KlHttpMultipartConfig) : KlHttpMultipartReader :=
  { delimiter := [13, 10, 45, 45] ++ boundary, config, state := .preamble, lastError := .none
    input := [], inputConsumed := 0, streamEnded := false, totalReceived := 0
    currentPartSize := 0, partsBegun := 0, hdr := [] }

/-- The boundary of a Content-Type value, where the factory accepts it. -/
def boundaryOf (ct : List UInt8) : Option (List UInt8) :=
  let kind := ascii "multipart/form-data"
  if ct.length < kind.length ∨ (ct.take kind.length).map lower ≠ kind then none
  else if (ct.drop kind.length).head?.any (· ∉ ascii "; \t\r\n") then none
  else do
    let rest ← findParam ct (ascii "boundary=")
    let bnd ← match rest with
      | 34 :: quoted => (quoteClose quoted).map (quoted.take ·)
      | _ => some (rest.takeWhile (· ∉ ascii "; \t\r\n"))
    if bnd.length = 0 ∨ KL_HTTP_MP_MAX_BOUNDARY < bnd.length then none else some bnd

/-- `kl_http_body_reader_multipart` for a request with this Content-Type. -/
def bodyReaderMultipart (ct : List UInt8) (config : KlHttpMultipartConfig) :
    Option KlHttpMultipartReader :=
  (boundaryOf ct).map (new · config)

variable (mr : KlHttpMultipartReader)

def applyConsume : KlHttpMultipartReader :=
  { mr with input := mr.input.drop mr.inputConsumed, inputConsumed := 0 }

def fail (code : KlHttpMultipartErrorCode) : KlHttpMultipartReader × KlHttpMultipartEvent :=
  ({ mr with state := .error, lastError := code }, .error)

def needOrEof : KlHttpMultipartReader × KlHttpMultipartEvent :=
  if mr.streamEnded then mr.fail .prematureEof else (mr, .needData)

/-- Whether the current part may grow by `n` bytes. -/
def partFits (n : Nat) : Bool :=
  mr.config.maxPartSize = 0 ∨
    (n ≤ mr.config.maxPartSize ∧ mr.currentPartSize ≤ mr.config.maxPartSize - n)

/-- Emit the first `n` bytes of the input. They leave it at the next call. -/
def emit (n : Nat) : KlHttpMultipartReader × KlHttpMultipartEvent :=
  if !mr.partFits n then mr.fail .partTooLarge
  else ({ mr with currentPartSize := mr.currentPartSize + n, inputConsumed := n },
    .partData (mr.input.take n))

def nextBody : KlHttpMultipartReader × KlHttpMultipartEvent :=
  if mr.input.length = 0 then mr.needOrEof
  else
    match find mr.delimiter mr.input with
    | some 0 =>
      ({ mr with input := mr.input.drop mr.delimiter.length, state := .afterBoundary }, .partEnd)
    | some bodyLen => mr.emit bodyLen
    | none =>
      if mr.delimiter.length - 1 < mr.input.length then
        mr.emit (mr.input.length - (mr.delimiter.length - 1))
      else mr.needOrEof

/-- The end of the header block is found: put back what was copied beyond it and start the part. -/
def beginPart (hdr rest : List UInt8) (hdrEnd : Nat) :
    KlHttpMultipartReader × KlHttpMultipartEvent :=
  let overshoot := hdr.drop hdrEnd
  if !overshoot.isEmpty && !growBuf rest.length overshoot.length mr.config.maxInputBuffer then
    { mr with input := rest, hdr }.fail .inputOverflow
  else
    match parseHeaders (hdr.take hdrEnd) with
    | none => { mr with input := overshoot ++ rest, hdr := hdr.take hdrEnd }.fail .malformed
    | some part =>
      ({ mr with input := overshoot ++ rest, partsBegun := mr.partsBegun + 1, state := .body,
                 hdr := [] }, .partBegin part)

/-- The end of a header block. -/
def crlfCrlf : List UInt8 := [13, 10, 13, 10]

/-- How many bytes of the input the header buffer takes. -/
def headerTake : Nat :=
  if mr.config.maxHeadersSize = 0 then mr.input.length
  else min mr.input.length (mr.config.maxHeadersSize - mr.hdr.length)

def nextHeaders : KlHttpMultipartReader × KlHttpMultipartEvent :=
  if mr.input.length = 0 then mr.needOrEof
  else if mr.config.maxHeadersSize ≠ 0 ∧ mr.config.maxHeadersSize - mr.hdr.length = 0 then
    mr.fail .headersTooLarge
  else
    if !growBuf mr.hdr.length mr.headerTake mr.config.maxHeadersSize then mr.fail .headersTooLarge
    else
      let hdr := mr.hdr ++ mr.input.take mr.headerTake
      let rest := mr.input.drop mr.headerTake
      match find crlfCrlf hdr with
      | some k => mr.beginPart hdr rest (k + 4)
      | none =>
        let mr := { mr with hdr, input := rest }
        -- the block fills the cap and more is pending
        if mr.config.maxHeadersSize ≠ 0 ∧ mr.config.maxHeadersSize ≤ hdr.length ∧
            rest.length ≠ 0 then
          mr.fail .headersTooLarge
        else mr.needOrEof

def nextAfterBoundary : KlHttpMultipartReader × KlHttpMultipartEvent :=
  match mr.input with
  | a :: b :: rest =>
    if a = 45 ∧ b = 45 then ({ mr with input := rest, state := .done }, .done)
    else if a = 13 ∧ b = 10 then
      if mr.config.maxParts ≠ 0 ∧ mr.config.maxParts ≤ mr.partsBegun then mr.fail .tooManyParts
      else { mr with input := rest, state := .headers, hdr := [], currentPartSize := 0 }.nextHeaders
    else mr.fail .malformed
  | _ => mr.needOrEof

def nextPreamble : KlHttpMultipartReader × KlHttpMultipartEvent :=
  let needle := mr.delimiter.drop 2
  if mr.input.length < needle.length then mr.needOrEof
  else
    match find needle mr.input with
    | some k => { mr with input := mr.input.drop (k + needle.length),
                          state := .afterBoundary }.nextAfterBoundary
    -- the last bytes can be the start of a boundary
    | none => { mr with input := mr.input.drop (mr.input.length - (needle.length - 1)) }.needOrEof

/-- `kl_http_multipart_next`. -/
def next : KlHttpMultipartReader × KlHttpMultipartEvent :=
  let mr := mr.applyConsume
  match mr.state with
  | .error => (mr, .error)
  | .done => (mr, .done)
  | .preamble => mr.nextPreamble
  | .afterBoundary => mr.nextAfterBoundary
  | .headers => mr.nextHeaders
  | .body => mr.nextBody

/-- `mp_on_data`. -/
def onData (data : List UInt8) : KlHttpMultipartReader :=
  if mr.state = .error ∨ mr.state = .done ∨ data.length = 0 then mr
  else if SIZE_MAX - mr.totalReceived < data.length then (mr.fail .totalTooLarge).1
  else if mr.config.maxTotalSize ≠ 0 ∧ mr.config.maxTotalSize < mr.totalReceived + data.length then
    (mr.fail .totalTooLarge).1
  else if !growBuf mr.input.length data.length mr.config.maxInputBuffer then
    (mr.fail .inputOverflow).1
  else { mr with input := mr.input ++ data, totalReceived := mr.totalReceived + data.length }

def onComplete : KlHttpMultipartReader := { mr with streamEnded := true }

end KlHttpMultipartReader

/-! ## The consumer -/

/-- What a consumer sees of the parts, with the data of a part byte by byte. -/
inductive PartItem where
  | begin (part : KlHttpMultipartPartMeta)
  | byte (b : UInt8)
  | finish
deriving DecidableEq

def KlHttpMultipartEvent.items : KlHttpMultipartEvent → List PartItem
  | .partBegin part => [.begin part]
  | .partData data => data.map .byte
  | .partEnd => [.finish]
  | _ => []

/-- After these events there is nothing more to pull. -/
def KlHttpMultipartEvent.isLast : KlHttpMultipartEvent → Bool
  | .done | .needData | .error => true
  | _ => false

/-- What a consumer has got, the reader, and the last event. -/
structure Pulled where
  items : List PartItem
  reader : KlHttpMultipartReader
  last : KlHttpMultipartEvent

def Pulled.after (items : List PartItem) (p : Pulled) : Pulled :=
  { p with items := items ++ p.items }

namespace KlHttpMultipartReader

/-- Pull until there is no more, at most `fuel + 1` times. -/
def pullUpTo : Nat → KlHttpMultipartReader → Pulled
  | 0, mr => { items := mr.next.2.items, reader := mr.next.1, last := mr.next.2 }
  | fuel + 1, mr =>
    if mr.next.2.isLast then { items := [], reader := mr.next.1, last := mr.next.2 }
    else (pullUpTo fuel mr.next.1).after mr.next.2.items

variable (mr : KlHttpMultipartReader)

/-- The bytes that a reader holds. -/
def held : Nat := mr.hdr.length + (mr.input.length - mr.inputConsumed)

/-- Pull until there is no more: each event takes bytes that are held. -/
def pull : Pulled := pullUpTo (mr.held + 1) mr

/-- Push the chunks one after another, and pull after each. -/
def receive (mr : KlHttpMultipartReader) : List (List UInt8) → Pulled
  | [] => { items := [], reader := mr, last := .needData }
  | data :: chunks =>
    let p := (mr.onData data).pull
    (receive p.reader chunks).after p.items

/-- A whole body: the parts, the last event and the error code. -/
def readAll (chunks : List (List UInt8)) :
    List PartItem × KlHttpMultipartEvent × KlHttpMultipartErrorCode :=
  let p := mr.receive chunks
  let q := p.reader.onComplete.pull
  (p.items ++ q.items, q.last, q.reader.lastError)

end KlHttpMultipartReader
