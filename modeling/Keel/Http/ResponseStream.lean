-- SUMMARY: Streamed HTTP/1.1 responses, over a drain or by spinning.
import Keel.Http.Response

/-!
# Streamed responses

A streamed response writes its chunks as it is called, through a drain or, without an
allocator, by writing until everything is out. `Transport` answers for the socket provider
and for TLS, from a state of its own.

The loop that spins gives up after many would-blocks in a row, but goes on for as long as
it is interrupted or the transport takes nothing. It has a number of rounds in the model,
and a call that needs more has not returned (`none`).
-/

open Message List Option

/-- What a vectored write or a send reports. -/
inductive IoResult where
  | wrote (n : Nat)
  | wouldBlock
  | interrupted
  | failed
deriving DecidableEq, Repr

/-- The number that stands for a result. -/
def IoResult.report : IoResult → Int
  | .wrote n => n
  | _ => -1

/-- The transport of a response. -/
structure Transport (σ : Type) where
  /-- There is a `writev` operation, as with no provider at all. -/
  vectored : Bool
  /-- `kl_http_comp_stream_driven`. -/
  driven : Bool
  writev : σ → List (List UInt8) → σ × IoResult
  send : σ → List UInt8 → σ × IoResult
  tlsWrite : σ → List UInt8 → σ × Int
  /-- `kl_http_comp_stream_tls_full`. -/
  tlsFull : σ → Bool
  /-- `kl_http_comp_stream_tls_flush`. -/
  tlsFlush : σ → σ × Bool
  /-- `kl_http_comp_stream_write`. -/
  compWrite : σ → List UInt8 → σ × Int
  realloc : σ → Nat → σ × Bool

namespace KlHttpResponse

/-- `KL_WRITE_SPIN_MAX`. -/
def writeSpinMax : Nat := 256

/-- `KL_STREAM_WRITE_BUF_SIZE`. -/
def streamWriteBufSize : Nat := 4096

/-- `KL_HTTP_STREAM_IOV_MAX`. -/
def streamIovMax : Nat := 32

/-- `KL_SOCK_IOV_MAX`. -/
def sockIovMax : Nat := 16

/-- `KL_STREAM_DRAIN_MAX`. -/
def streamDrainMax : Nat := 2 ^ 20

variable {σ : Type} (t : Transport σ)

/-! ## Writing until everything is out -/

/-- What a write loop returned, and what it did with the transport. -/
structure Sent (σ : Type) where
  env : σ
  rc : Int
  writes : List WriterCall := []

def Sent.after (ws : List WriterCall) (out : Sent σ) : Sent σ :=
  { out with writes := ws ++ out.writes }

/-- `seam_writev` for a provider without a vectored write: one send after the other. -/
def sendSegments : Nat → σ → Nat → List (List UInt8) → σ × IoResult × List WriterCall
  | 0, s, total, _ => (s, .wrote total, [])
  | _ + 1, s, total, [] => (s, .wrote total, [])
  | fuel + 1, s, total, seg :: segs =>
    if seg = [] then sendSegments fuel s total segs
    else match t.send s seg with
      | (s, .wrote n) =>
        if n = 0 then (s, .wrote total, [⟨seg, 0⟩])
        else
          let (s, r, ws) := sendSegments fuel s (total + n) (seg.drop n :: segs)
          (s, r, ⟨seg, n⟩ :: ws)
      | (s, r) => (s, if 0 < total then .wrote total else r, [⟨seg, r.report⟩])

/-- `seam_writev`. -/
def seamWritev (s : σ) (segs : List (List UInt8)) : σ × IoResult × List WriterCall :=
  if t.vectored then
    let (s, r) := t.writev s segs
    (s, r, [⟨segs.flatten, r.report⟩])
  else sendSegments t (segs.flatten.length + segs.length) s 0 segs

/-- Step over `written` bytes of the segments. -/
def advance : Nat → List (List UInt8) → List (List UInt8)
  | _, [] => []
  | written, seg :: segs =>
    if seg.length ≤ written then advance (written - seg.length) segs
    else if 0 < written then seg.drop written :: segs
    else seg :: segs

/-- `stream_writev_all` without TLS. -/
def spinPlain : Nat → σ → Nat → List (List UInt8) → Option (Sent σ)
  | _, s, _, [] => some { env := s, rc := 0 }
  | 0, _, _, _ :: _ => none
  | fuel + 1, s, spins, segs =>
    let (s, r, ws) := seamWritev t s segs
    match r with
    | .interrupted => (spinPlain fuel s spins segs).map (·.after ws)
    | .wouldBlock =>
      if writeSpinMax < spins + 1 then some { env := s, rc := -1, writes := ws }
      else (spinPlain fuel s (spins + 1) segs).map (·.after ws)
    | .failed => some { env := s, rc := -1, writes := ws }
    | .wrote n => (spinPlain fuel s 0 (advance n segs)).map (·.after ws)

/-- `stream_writev_all` with TLS: segment after segment. -/
def spinTls : Nat → σ → Nat → List (List UInt8) → Option (Sent σ)
  | _, s, _, [] => some { env := s, rc := 0 }
  | 0, _, _, _ :: _ => none
  | fuel + 1, s, spins, seg :: segs =>
    if seg = [] then spinTls fuel s spins segs
    else
      let (s, n) := t.tlsWrite s seg
      if n < 0 then some { env := s, rc := -1, writes := [⟨seg, n⟩] }
      else if n = 0 then
        if writeSpinMax < spins + 1 then some { env := s, rc := -1, writes := [⟨seg, n⟩] }
        else (spinTls fuel s (spins + 1) (seg :: segs)).map (·.after [⟨seg, n⟩])
      else (spinTls fuel s 0 (seg.drop n.toNat :: segs)).map (·.after [⟨seg, n⟩])

/-- `stream_writev_all`. -/
def streamWritevAll (tls : Bool) (fuel : Nat) (s : σ) (segs : List (List UInt8)) :
    Option (Sent σ) :=
  if tls then spinTls t fuel s 0 segs else spinPlain t fuel s 0 segs

/-- The loop over groups of `KL_SOCK_IOV_MAX` segments. -/
def writevGroups (tls : Bool) (fuel : Nat) : Nat → σ → List (List UInt8) → Option (Sent σ)
  | 0, s, _ => some { env := s, rc := 0 }
  | k + 1, s, segs =>
    if segs = [] then some { env := s, rc := 0 }
    else (streamWritevAll t tls fuel s (segs.take sockIovMax)).bind fun out =>
      if out.rc < 0 then some out
      else (writevGroups tls fuel k out.env (segs.drop sockIovMax)).map (·.after out.writes)

/-! ## Writing through the drain -/

/-- `response_drain_writer`. -/
def responseDrainWriter (tls : Bool) (s : σ) (data : List UInt8) : σ × Int :=
  if tls then
    if t.tlsFull s then (s, 0)
    else
      let (s, n) := t.tlsWrite s data
      if n < 0 then (s, -1)
      else
        let (s, ok) := t.tlsFlush s
        if ok then (s, n) else (s, -1)
  else if t.driven then t.compWrite s data
  else match t.send s data with
    | (s, .wrote n) => (s, n)
    | (s, .wouldBlock) => (s, 0)
    | (s, .interrupted) => (s, 0)
    | (s, .failed) => (s, -1)

def drainEnv (tls : Bool) : DrainEnv σ where
  writeFn := responseDrainWriter t tls
  realloc := t.realloc

/-- The variables of `drain_writev_coalesced`: `used` is what its buffer holds. -/
structure Coalesce (σ : Type) where
  env : σ
  drain : KlDrainQueue
  used : List UInt8 := []
  writes : List WriterCall := []
  failed : Bool := false

def Coalesce.write (e : DrainEnv σ) (c : Coalesce σ) (data : List UInt8) : Coalesce σ :=
  let out := KlDrainQueue.drainWrite e c.env c.drain (.bytes data)
  { c with env := out.env, drain := out.drain, writes := c.writes ++ out.writes,
           failed := out.rc < 0 }

/-- One segment. Each round takes at least one byte of it. -/
def coalesceSeg (e : DrainEnv σ) : Nat → Coalesce σ → List UInt8 → Coalesce σ
  | 0, c, _ => c
  | fuel + 1, c, data =>
    if data = [] then c
    else if c.used = [] ∧ streamWriteBufSize ≤ data.length then c.write e data
    else
      let avail := streamWriteBufSize - c.used.length
      let used := c.used ++ data.take avail
      if used.length = streamWriteBufSize then
        let c := { c with used := [] }.write e used
        if c.failed then c else coalesceSeg e fuel c (data.drop avail)
      else coalesceSeg e fuel { c with used } (data.drop avail)

def coalesceSegs (e : DrainEnv σ) : Coalesce σ → List (List UInt8) → Coalesce σ
  | c, [] => c
  | c, seg :: segs =>
    let c := coalesceSeg e seg.length c seg
    if c.failed then c else coalesceSegs e c segs

/-- `drain_writev_coalesced`. -/
def drainWritevCoalesced (e : DrainEnv σ) (s : σ) (d : KlDrainQueue) (segs : List (List UInt8)) :
    Coalesce σ :=
  let c := coalesceSegs e { env := s, drain := d } segs
  if c.failed || c.used = [] then c else { c with used := [] }.write e c.used

/-! ## The calls -/

variable (res : KlHttpResponse)

/-- `res_has_wire`. -/
def resHasWire : Bool := res.tls || res.connFd

/-- The digit of `format_chunk_hdr`. -/
def hexChar (k : Nat) : UInt8 := if k < 10 then UInt8.ofNat (48 + k) else UInt8.ofNat (87 + k)

/-- The digits of `format_chunk_hdr`, at least one. -/
def chunkSize (n : Nat) : List UInt8 := Numeral.putDigits 16 hexChar n (n / 16) [hexChar (n % 16)]

/-- `format_chunk_hdr`. -/
def formatChunkHdr (n : Nat) : List UInt8 := chunkSize n ++ crlf

/-- The terminating chunk. -/
def terminator : List UInt8 := ascii "0\r\n\r\n"

/-- A vector of segments and their number. -/
inductive Iov where
  | null (iovcnt : Int)
  | vec (segs : List (List UInt8))
deriving DecidableEq, Repr

/-- The segments of an acceptable vector. -/
def Iov.segments : Iov → Option (List (List UInt8))
  | .null iovcnt => if iovcnt = 0 then some [] else none
  | .vec segs => if streamIovMax < segs.length then none else some segs

structure StreamOut (σ : Type) where
  env : σ
  res : KlHttpResponse
  rc : Int
  writes : List WriterCall := []

@[simp] def failStream : KlHttpResponse := { res with streamError := true }

/-- The end of a call that wrote through the drain. -/
def drained (env : σ) (drain : KlDrainQueue) (failed : Bool)
    (writes : List WriterCall) : StreamOut σ :=
  if failed then { env, res := { res with drain, streamError := true }, rc := -1, writes }
  else { env, res := { res with drain }, rc := 0, writes }

/-- The end of a call that wrote all of it. -/
def spun (out : Sent σ) : StreamOut σ :=
  if out.rc < 0 then { env := out.env, res := res.failStream, rc := -1, writes := out.writes }
  else { env := out.env, res, rc := 0, writes := out.writes }

/-- `kl_http_response_stream_writev`. -/
def streamWritev (fuel : Nat) (s : σ) (res : KlHttpResponse) (iov : Iov) : Option (StreamOut σ) :=
  if res.streamError then some { env := s, res, rc := -1 }
  else if res.headRequest then some { env := s, res, rc := 0 }
  else match iov.segments with
    | none => some { env := s, res := res.failStream, rc := -1 }
    | some segs =>
      let len := segs.flatten.length
      if SIZE_MAX < len then some { env := s, res := res.failStream, rc := -1 }
      else if len = 0 then some { env := s, res, rc := 0 }
      else
        let wire := formatChunkHdr len :: (segs ++ [crlf])
        if res.drainEnabled then
          let c := drainWritevCoalesced (drainEnv t res.tls) s res.drain wire
          some (res.drained c.env c.drain c.failed c.writes)
        else (writevGroups t res.tls fuel wire.length s wire).map res.spun

/-- Set `stream_ended` if the terminator was taken. -/
def StreamOut.marked (out : StreamOut σ) : StreamOut σ :=
  if out.rc < 0 then out else { out with res := { out.res with streamEnded := true } }

/-- `kl_http_response_end_stream`. -/
def endStream (fuel : Nat) (s : σ) (res : KlHttpResponse) : Option (StreamOut σ) :=
  if res.streamError then some { env := s, res, rc := -1 }
  else if !res.resHasWire then some { env := s, res, rc := -1 }
  else if res.headRequest then some { env := s, res := { res with streamEnded := true }, rc := 0 }
  else if res.streamEnded then some { env := s, res, rc := 0 }
  else if res.drainEnabled then
    let out := KlDrainQueue.drainWrite (drainEnv t res.tls) s res.drain (.bytes terminator)
    some (res.drained out.env out.drain (out.rc < 0) out.writes).marked
  else (streamWritevAll t res.tls fuel s [terminator]).map fun out => (res.spun out).marked

/-- `kl_http_response_enable_drain`. -/
def enableDrain (alloc : Bool) (maxSize : Nat) : KlHttpResponse × Int :=
  if !alloc || !res.resHasWire then (res, -1)
  else ({ res with drain := .init maxSize, drainEnabled := true }, 0)

/-- `kl_http_response_begin_stream` before it writes: the response whose head is to be
written, and whether it is. `room` says whether the header buffer could grow. -/
def prepareStream (status : Int) (room : Bool) : KlHttpResponse × Bool :=
  if !res.resHasWire then ({ res with bodyMode := .stream }, false)
  else
    let (res, rc) :=
      { res with bodyMode := .stream, status }.header (ascii "Transfer-Encoding")
      (ascii "chunked") room
    if rc < 0 then (res, false)
    else if !res.drainEnabled && res.alloc then ((res.enableDrain res.alloc streamDrainMax).1, true)
    else (res, true)

/-- The head of a streamed response, in parts. -/
def headParts : List (List UInt8) :=
  [statusLineFor res.status] ++ (if res.hdrBuf ≠ [] then [res.hdrBuf] else []) ++ [crlf]

/-- Write parts through the drain, one call for each, up to the first failure. -/
def writeParts (e : DrainEnv σ) (c : Coalesce σ) (parts : List (List UInt8)) : Coalesce σ :=
  parts.foldl (fun c part => if c.failed then c else c.write e part) c

/-- Set `headers_sent` if the head was taken. -/
def StreamOut.begun (out : StreamOut σ) : StreamOut σ :=
  if out.rc < 0 then out else { out with res := { out.res with headersSent := true } }

/-- `kl_http_response_begin_stream`. A head that could not be written out is not recorded in
`stream_error`, one that the drain refused is. -/
def beginStream (fuel : Nat) (s : σ) (res : KlHttpResponse) (status : Int) (room : Bool) :
    Option (StreamOut σ) :=
  match res.prepareStream status room with
  | (res, false) => some { env := s, res, rc := -1 }
  | (res, true) =>
    if res.drainEnabled then
      let c := writeParts (drainEnv t res.tls) { env := s, drain := res.drain } res.headParts
      some (res.drained c.env c.drain c.failed c.writes).begun
    else (streamWritevAll t res.tls fuel s res.headParts).map fun (out : Sent σ) =>
      StreamOut.begun { env := out.env, res, rc := if out.rc < 0 then -1 else 0,
                        writes := out.writes }

/-- `kl_http_response_send` for a streamed response whose head is out. -/
def sendStream (s : σ) (res : KlHttpResponse) : StreamOut σ :=
  if !res.resHasWire then { env := s, res, rc := -1 }
  else if res.drainEnabled then
    let out := KlDrainQueue.drainFlush (drainEnv t res.tls) s res.drain
    let res := { res with drain := out.drain }
    let rc := if out.rc < 0 then -1 else if out.rc = 1 then 1 else if res.streamEnded then 0 else 1
    { env := out.env, res, rc, writes := out.writes }
  else { env := s, res, rc := 0 }

/-! ## Runs -/

inductive StreamOp where
  | writev (iov : Iov)
  | endStream
  | send
deriving DecidableEq, Repr

def call (fuel : Nat) (s : σ) (res : KlHttpResponse) : StreamOp → Option (StreamOut σ)
  | .writev iov => streamWritev t fuel s res iov
  | .endStream => endStream t fuel s res
  | .send => some (sendStream t s res)

/-- One call of a run. -/
structure StreamCall where
  op : StreamOp
  before : KlHttpResponse
  after : KlHttpResponse
  rc : Int
  writes : List WriterCall
deriving DecidableEq, Repr

structure StreamRun (σ : Type) where
  env : σ
  res : KlHttpResponse
  log : List StreamCall := []

/-- The run after a call that returned `out`. -/
def StreamRun.push (r : StreamRun σ) (op : StreamOp) (out : StreamOut σ) : StreamRun σ :=
  { env := out.env, res := out.res, log := r.log ++ [⟨op, r.res, out.res, out.rc, out.writes⟩] }

def streamRun (fuel : Nat) : StreamRun σ → List StreamOp → Option (StreamRun σ)
  | r, [] => some r
  | r, op :: ops => (call t fuel r.env r.res op).bind fun out => streamRun fuel (r.push op out) ops

variable {t} {fuel : Nat}

/-- A property of runs that every call keeps holds at the end. -/
theorem streamRun_induction {P : StreamRun σ → Prop} {ops : List StreamOp} {r r' : StreamRun σ}
    (hstep : ∀ r op out, P r → op ∈ ops → call t fuel r.env r.res op = some out → P (r.push op out))
    (hr : P r) (hrun : streamRun t fuel r ops = some r') : P r' := by
  induction ops generalizing r with
  | nil =>
    obtain rfl := some.inj hrun
    exact hr
  | cons op ops ih =>
    obtain ⟨out, hcall, hrest⟩ := bind_eq_some_iff.mp hrun
    exact ih (fun r op' out hr hmem => hstep r op' out hr (mem_cons_of_mem op hmem))
      (hstep r op out hr mem_cons_self hcall) hrest

/-! ## After the terminating chunk -/

/-- A call that does nothing to the wire or to the drain. -/
def StreamCall.silent (c : StreamCall) : Prop := c.writes = [] ∧ c.after.drain = c.before.drain

/-- The data of a vector. -/
def Iov.data : Iov → List UInt8
  | .null _ => []
  | .vec segs => segs.flatten

/-- The call does not write data to a stream that has ended. -/
def StreamCall.Orderly (c : StreamCall) : Prop :=
  ∀ iov, c.op = .writev iov → c.before.streamEnded = true → c.before.headRequest = false →
    iov.data = []

variable {s : σ} {res : KlHttpResponse} {out : StreamOut σ} {iov : Iov}

theorem data_of_segments {segs : List (List UInt8)} (h : iov.segments = some segs) :
    iov.data = segs.flatten := by
  cases iov with
  | null iovcnt =>
    simp only [Iov.segments] at h
    split at h
    · obtain rfl := some.inj h
      rfl
    · cases h
  | vec segs' =>
    simp only [Iov.segments] at h
    split at h
    · cases h
    · obtain rfl := some.inj h
      rfl

/-- A vector without data, or a HEAD response, leaves everything as it is. -/
theorem streamWritev_silent (h : streamWritev t fuel s res iov = some out)
    (hempty : res.headRequest = false → iov.data = []) :
    out.writes = [] ∧ out.res.drain = res.drain ∧ out.res.streamEnded = res.streamEnded := by
  unfold streamWritev at h
  split at h
  · cases h
    exact ⟨rfl, rfl, rfl⟩
  split at h
  · cases h
    exact ⟨rfl, rfl, rfl⟩
  rename_i hhead
  have hdata := hempty (by simpa using hhead)
  split at h
  · cases h
    exact ⟨rfl, rfl, rfl⟩
  next segs hsegs =>
  rw [data_of_segments hsegs] at hdata
  simp only [hdata, length_nil, if_neg (Nat.not_lt_zero _), if_true] at h
  cases h
  exact ⟨rfl, rfl, rfl⟩

theorem endStream_silent (h : endStream t fuel s res = some out) (hended : res.streamEnded = true) :
    out.writes = [] ∧ out.res.drain = res.drain ∧ out.res.streamEnded = true := by
  unfold endStream at h
  split at h
  · cases h
    exact ⟨rfl, rfl, hended⟩
  split at h
  · cases h
    exact ⟨rfl, rfl, hended⟩
  split at h
  · cases h
    exact ⟨rfl, rfl, rfl⟩
  · cases h
    exact ⟨rfl, rfl, hended⟩

theorem marked_ended (hrc : out.marked.rc = 0) : out.marked.res.streamEnded = true := by
  unfold StreamOut.marked at hrc ⊢
  split
  · next hlt =>
    rw [if_pos hlt] at hrc
    exact absurd hlt (by rw [hrc]; decide)
  · rfl

/-- `end_stream` returns 0 with the stream ended. -/
theorem endStream_ended (h : endStream t fuel s res = some out) (hrc : out.rc = 0) :
    out.res.streamEnded = true := by
  unfold endStream at h
  split at h
  · cases h
    cases hrc
  split at h
  · cases h
    cases hrc
  split at h
  · cases h
    rfl
  split at h
  · next hended =>
    cases h
    exact hended
  split at h
  · cases h
    exact marked_ended hrc
  · obtain ⟨sent, -, rfl⟩ := map_eq_some_iff.mp h
    exact marked_ended hrc

theorem sendStream_ended : (sendStream t s res).res.streamEnded = res.streamEnded := by
  unfold sendStream
  split
  · rfl
  split
  · rfl
  · rfl

/-- The calls after an `end_stream` that returned 0 are silent, but for the flush. -/
structure Quiet (r : StreamRun σ) : Prop where
  ended : ∀ c ∈ r.log, c.op = .endStream → c.rc = 0 → r.res.streamEnded = true
  silent : r.log.Pairwise fun c x => c.op = .endStream → c.rc = 0 → x.op ≠ .send → x.silent

theorem Quiet.push {r : StreamRun σ} {op : StreamOp} (h : Quiet r)
    (hcall : call t fuel r.env r.res op = some out)
    (horder : StreamCall.Orderly ⟨op, r.res, out.res, out.rc, out.writes⟩) :
    Quiet (r.push op out) := by
  -- once the stream has ended, the call keeps it so and is silent
  have hkeep : r.res.streamEnded = true → out.res.streamEnded = true ∧
      (op ≠ .send → out.writes = [] ∧ out.res.drain = r.res.drain) := by
    intro hended
    cases op with
    | writev iov =>
      obtain ⟨hw, hd, he⟩ := streamWritev_silent hcall (horder iov rfl hended)
      exact ⟨he.trans hended, fun _ => ⟨hw, hd⟩⟩
    | endStream =>
      obtain ⟨hw, hd, he⟩ := endStream_silent hcall hended
      exact ⟨he, fun _ => ⟨hw, hd⟩⟩
    | send =>
      obtain rfl := some.inj hcall
      exact ⟨sendStream_ended.trans hended, fun hne => absurd rfl hne⟩
  refine ⟨fun c hc hop hrc => ?_, pairwise_append.mpr ⟨h.silent, pairwise_singleton _ _, ?_⟩⟩
  · rcases mem_append.mp hc with hc | hc
    · exact (hkeep (h.ended c hc hop hrc)).1
    · obtain rfl := mem_singleton.mp hc
      obtain rfl : op = .endStream := hop
      exact endStream_ended hcall hrc
  · intro c hc x hx hop hrc hne
    obtain rfl := mem_singleton.mp hx
    exact (hkeep (h.ended c hc hop hrc)).2 hne

/-- Nothing follows the terminating chunk in a run whose calls are all orderly. -/
theorem nothing_after_terminator (t : Transport σ) (fuel : Nat) (s : σ) (res : KlHttpResponse)
    (ops : List StreamOp) (r : StreamRun σ)
    (hrun : streamRun t fuel { env := s, res } ops = some r) (horder : ∀ c ∈ r.log, c.Orderly)
    (before after : List StreamCall) (c : StreamCall) (hlog : r.log = before ++ c :: after)
    (hop : c.op = .endStream) (hrc : c.rc = 0) :
    ∀ x ∈ after, x.op ≠ .send → x.writes = [] ∧ x.after.drain = x.before.drain := by
  have hquiet : (∀ c ∈ r.log, c.Orderly) → Quiet r := by
    refine streamRun_induction (P := fun r => (∀ c ∈ r.log, c.Orderly) → Quiet r) ?_ ?_ hrun
    · intro r op out ih _ hcall hall
      have hmem : ∀ c ∈ r.log, c.Orderly := fun c hc => hall c (mem_append_left _ hc)
      exact (ih hmem).push hcall (hall _ (mem_append_right _ mem_cons_self))
    · intro _
      exact ⟨fun c hc => absurd hc not_mem_nil, List.Pairwise.nil⟩
  have hpair := (hquiet horder).silent
  rw [hlog] at hpair
  intro x hx hne
  exact (pairwise_cons.mp (pairwise_append.mp hpair).2.1).1 x hx hop hrc hne

/-- A transport that takes everything at once. -/
def eager : Transport Unit where
  vectored := true
  driven := false
  writev s segs := (s, .wrote segs.flatten.length)
  send s data := (s, .wrote data.length)
  tlsWrite s data := (s, data.length)
  tlsFull _ := false
  tlsFlush s := (s, true)
  compWrite s data := (s, data.length)
  realloc s _ := (s, true)

/-- The stream is ended, and a chunk of one byte is written to it. -/
theorem chunk_after_terminator :
    ∃ r c x, streamRun eager 2 { env := (), res := { connFd := true, drainEnabled := true } }
        [.endStream, .writev (.vec [ascii "x"])] = some r ∧
      r.log = [c, x] ∧ c.op = .endStream ∧ c.rc = 0 ∧ x.op ≠ .send ∧
      x.writes.flatMap WriterCall.taken = ascii "1\r\nx\r\n" :=
  ⟨_, _, _, rfl, rfl, rfl, rfl, by decide, by decide⟩

/-- The stream is ended twice, with an empty write in between. -/
theorem nothing_after_terminator_twice :
    ∃ r c x y, streamRun eager 2 { env := (), res := { connFd := true, drainEnabled := true } }
        [.endStream, .writev (.vec [[]]), .endStream] = some r ∧
      r.log = [c, x, y] ∧ c.writes.flatMap WriterCall.taken = terminator ∧ y.rc = 0 ∧
      ∀ z ∈ [x, y], z.op ≠ .send → z.writes = [] ∧ z.after.drain = z.before.drain := by
  obtain ⟨r, c, x, y, hrun, hlog, horder, hop, hrc, hwire, hagain⟩ :
      ∃ r c x y, streamRun eager 2 { env := (), res := { connFd := true, drainEnabled := true } }
          [.endStream, .writev (.vec [[]]), .endStream] = some r ∧
        r.log = [c, x, y] ∧ (∀ z ∈ [c, x, y], z.Orderly) ∧ c.op = .endStream ∧ c.rc = 0 ∧
        c.writes.flatMap WriterCall.taken = terminator ∧ y.rc = 0 := by
    refine ⟨_, _, _, _, rfl, rfl, ?_, rfl, rfl, by decide, rfl⟩
    simp only [forall_mem_cons, StreamCall.Orderly]
    refine ⟨?_, ?_, ?_, fun z hz => absurd hz not_mem_nil⟩
    · intro iov h
      cases h
    · intro iov h _ _
      obtain rfl := StreamOp.writev.inj h
      rfl
    · intro iov h
      cases h
  refine ⟨r, c, x, y, hrun, hlog, hwire, hagain, ?_⟩
  exact nothing_after_terminator eager 2 () _ _ r hrun (hlog ▸ horder) [] [x, y] c hlog hop hrc

end KlHttpResponse
