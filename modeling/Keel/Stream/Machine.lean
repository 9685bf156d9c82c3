-- SUMMARY: The KlStream operations (src/stream_*.c) as a re-entrant machine.
import Keel.Reentrant.Machine
import Keel.Stream.State

/-!
# The stream machinery

Each function of the three translation units, cut at its hook calls. A function
that runs to its end takes what its caller does next as an argument (`ArmK`,
`SendK`, `CloseK`); a hook call leaves a `Frame`, and `resume` goes on from there.
-/

open Reentrant

/-- Who called `stream_arm`: `kl_stream_read_start` and `kl_stream_resume` return
its result, `kl_stream_on_recv` notifies a retired receive first. -/
inductive ArmK where
  | plain
  | onRecv
deriving DecidableEq, Repr

/-- Who called `stream_pump_completion`: the write of `data`, or
`kl_stream_on_write_complete`. -/
inductive SendK where
  | write (data : List UInt8)
  | complete
deriving DecidableEq, Repr

/-- Who called `kl_stream_read_close`: the public entry point, or
`stream_close_common`. -/
inductive CloseK where
  | readClose
  | closeCommon
deriving DecidableEq, Repr

/-- The results of the public operations. -/
inductive Ret where
  | written (status : KlStreamWriteStatus)
  | int (r : Int)
  | unit
deriving DecidableEq, Repr

/-- A hook call in progress, with the locals its caller still needs. -/
inductive Frame where
  /-- `write_fn`, called by `kl_drain_reserve_write` for `data`. -/
  | writeDirect (data : List UInt8)
  /-- `write_fn`, called by `drain_push` for the whole queue. -/
  | flushPush
  | submit (len : Nat) (k : SendK)
  /-- `on_writable`, called by `kl_stream_flush` that has result `r` so far. -/
  | flushWritable (r : Int)
  /-- `on_writable`, called by `kl_stream_on_write_complete` with result `r`. -/
  | completeWritable (r : Int)
  | arm (k : ArmK)
  | deliver (len : Nat) (ok : Bool) (k : ArmK)
  /-- `read_disarm`, called by `kl_stream_pause`. -/
  | pauseDisarm
  /-- `read_disarm`, called by `kl_stream_read_close`. -/
  | closeDisarm (k : CloseK)
  | cancelRecv
  | cancelSend
  /-- `on_close`, called in a tail position of an operation that returns `r`. -/
  | onClose (r : Ret)
deriving DecidableEq, Repr

inductive Op where
  | write (src : SrcBuf)
  | flush
  | onWriteComplete (ok : Bool)
  | readStart
  | onRecv (len : Nat) (ok : Bool)
  | pause
  | resume
  | readClose
  | closeBegin
  | cancel
deriving DecidableEq, Repr

/-! ## Updates of one facet -/

namespace KlStreamClose

variable (c : KlStreamClose)

@[simp] def setState (st : KlStreamCloseState) : KlStreamClose := { c with closeState := st }
@[simp] def notify : KlStreamClose := { c with closeNotified := true }
@[simp] def escalate (abort : Bool) : KlStreamClose :=
  { c with closeAbort := abort || c.closeAbort }
/-- New writes are refused from here on. -/
@[simp] def beginClosing : KlStreamClose := { c with closeState := .closing, wqClosing := true }
@[simp] def enterCancel : KlStreamClose := { c with inCloseCancel := c.inCloseCancel + 1 }
@[simp] def leaveCancel : KlStreamClose := { c with inCloseCancel := c.inCloseCancel - 1 }
@[simp] def requestRecv : KlStreamClose := { c with recvCancelRequested := true }
@[simp] def requestSend : KlStreamClose := { c with sendCancelRequested := true }
/-- A new receive has not been asked to cancel. -/
@[simp] def freshRecv : KlStreamClose := { c with recvCancelRequested := false }
@[simp] def freshSend : KlStreamClose := { c with sendCancelRequested := false }

end KlStreamClose

namespace KlStreamWrite

variable (w : KlStreamWrite)

@[simp] def setQueue (wq : KlDrain) : KlStreamWrite := { w with wq }
@[simp] def setBlocked (b : Bool) : KlStreamWrite := { w with wrBlocked := b }
@[simp] def setErr : KlStreamWrite := { w with wqErr := true }
/-- `stream_writable_edge` disarms, `stream_fire_writable` counts its depth. -/
@[simp] def enterWritable : KlStreamWrite :=
  { w with wrBlocked := false, inWritable := w.inWritable + 1 }
@[simp] def leaveWritable : KlStreamWrite := { w with inWritable := w.inWritable - 1 }
/-- The send is in flight before `submit_fn` runs. -/
@[simp] def post : KlStreamWrite :=
  { w with
    sendInflight := true, inflightLen := w.wq.buffered, inflightCopying := w.submitCopying,
    inlineDone := false, submitting := true }
@[simp] def submitReturned : KlStreamWrite := { w with submitting := false }
@[simp] def noteInline (ok : Bool) : KlStreamWrite := { w with inlineDone := true, inlineOk := ok }
@[simp] def clearInline : KlStreamWrite := { w with inlineDone := false }
/-- A backend that copies has its copy once `submit_fn` returned. -/
@[simp] def copied (len : Nat) : KlStreamWrite :=
  { w with wq := bif w.inflightCopying then w.wq.consume len else w.wq }
/-- `stream_send_retired`. -/
@[simp] def sendRetired : KlStreamWrite :=
  { w with
    wq := bif w.inflightCopying then w.wq else w.wq.consume w.inflightLen
    sendInflight := false, inflightLen := 0 }
@[simp] def sendFailed : KlStreamWrite :=
  { w with sendInflight := false, inflightLen := 0, wqErr := true }

end KlStreamWrite

namespace KlStreamRead

variable (r : KlStreamRead)

@[simp] def setPaused (b : Bool) : KlStreamRead := { r with readPaused := b }
@[simp] def setClosed : KlStreamRead := { r with readClosed := true }
@[simp] def dropHeld : KlStreamRead := { r with recvHeld := false, heldLen := 0, heldOk := false }
@[simp] def hold (len : Nat) (ok : Bool) : KlStreamRead :=
  { r with recvHeld := true, heldLen := len, heldOk := ok }
/-- The receive is in flight before `read_arm` runs. -/
@[simp] def post : KlStreamRead :=
  { r with recvInflight := true, completedInline := false, rearmPending := false, arming := true }
@[simp] def armReturned : KlStreamRead := { r with arming := false }
@[simp] def deferRearm : KlStreamRead := { r with rearmPending := true }
@[simp] def retire : KlStreamRead := { r with recvInflight := false }
/-- A completion retires the receive; inside `read_arm` it retires that very arm. -/
@[simp] def complete : KlStreamRead :=
  { r with recvInflight := false, completedInline := r.arming || r.completedInline }

end KlStreamRead

namespace KlStream

/-- How a stretch of stream code ends. -/
abbrev SOut := Out KlStream Frame Ret

/-! ## stream_close.c -/

variable (s : KlStream)

/-- `stream_detach`, then `return ret`. -/
def detach (ret : Ret) : SOut :=
  if !s.c.closeNotified then .call { s with c := (s.c.setState .closed).notify } (.onClose ret)
  else .done { s with c := s.c.setState .closed } ret

/-- `stream_close_finalize`, then `return ret`. -/
def closeFinalize (ret : Ret) : SOut :=
  if s.c.closeState ≠ .closing then .done s ret
  else if s.c.inCloseCancel ≠ 0 then .done s ret
  else if s.w.inWritable ≠ 0 then .done s ret
  else if !s.fullyRetired then .done s ret
  else s.detach ret

/-- The `on_retire` hook, then `return ret`. -/
def onRetire (ret : Ret) : SOut := if s.c.closeInited then s.closeFinalize ret else .done s ret

/-- `stream_close_common` after the cancel hooks. -/
def closeCancelled : SOut := { s with c := s.c.leaveCancel }.closeFinalize (.int 0)

/-- `stream_close_common` from the cancel of the send on. -/
def closeCancelSend : SOut :=
  if s.w.sendInflight && s.c.cancelSend && !s.c.sendCancelRequested then
    .call { s with c := s.c.requestSend } .cancelSend
  else s.closeCancelled

/-- `stream_close_common` after the read side was closed. -/
def closeCancels : SOut :=
  if s.c.closeAbort then
    if s.r.recvInflight && s.c.cancelRecv && !s.c.recvCancelRequested then
      .call { s with c := s.c.enterCancel.requestRecv } .cancelRecv
    else { s with c := s.c.enterCancel }.closeCancelSend
  else s.closeFinalize (.int 0)

/-- What the caller of `kl_stream_read_close` does next. -/
def readCloseRet : CloseK → SOut
  | .readClose => .done s .unit
  | .closeCommon => s.closeCancels

/-- `kl_stream_read_close`, up to `read_disarm`. -/
def readClose (k : CloseK) : SOut :=
  if !s.r.readInited || s.r.readClosed then s.readCloseRet k
  else if !s.r.readCompletionMode then
    if s.r.recvInflight && s.r.readDisarm then
      .call { s with r := s.r.setClosed.dropHeld } (.closeDisarm k)
    else { s with r := s.r.setClosed.dropHeld.retire }.readCloseRet k
  else { s with r := s.r.setClosed.dropHeld }.readCloseRet k

/-- `stream_close_common`. -/
def closeCommon (abort : Bool) : SOut :=
  if !s.c.closeInited then .done s (.int (-1))
  else if s.c.closeState = .closed then .done s (.int 0)
  else if s.c.closeState = .opened then
    if s.r.readInited then
      { s with c := (s.c.escalate abort).beginClosing }.readClose .closeCommon
    else { s with c := (s.c.escalate abort).beginClosing }.closeCancels
  else { s with c := s.c.escalate abort }.closeCancels

/-! ## stream_write.c -/

/-- `map_drain`. -/
def mapDrain : KlDrainWriteStatus → KlStreamWriteStatus
  | .accepted => .accepted
  | .wouldBlock => .wouldBlock
  | .tooLarge => .tooLarge
  | .werror => .error

/-- The decision of `stream_writable_edge`. -/
def writableEdge : Bool :=
  if !s.w.wrBlocked || !s.w.onWritable || s.c.wqClosing then false
  else if !s.w.wqErr && s.w.wq.maxSize ≤ s.w.pending then false
  else true

/-- `kl_stream_on_write_complete` after the pump, or after a failed delivery. -/
def completeTail (r : Int) : SOut :=
  if s.writableEdge then .call { s with w := s.w.enterWritable } (.completeWritable r)
  else s.onRetire (.int r)

/-- What the caller of `stream_pump_completion` does with its result. -/
def pumpRet (r : Int) : SendK → SOut
  | .write _ => if r < 0 then .done s (.written .error) else .done s (.written .accepted)
  | .complete => s.completeTail r

/-- One round of the loop of `stream_pump_completion`, up to `submit_fn`. -/
def pumpCompletion (k : SendK) : SOut :=
  if s.w.wqErr then s.pumpRet (-1) k
  else if s.c.closeAbort then s.pumpRet 0 k
  else if s.w.sendInflight then s.pumpRet 0 k
  else if s.w.wq.buffered = 0 then s.pumpRet 0 k
  else .call { s with w := s.w.post, c := s.c.freshSend } (.submit s.w.wq.buffered k)

/-- The round of `stream_pump_completion` after `submit_fn` returned `r`. -/
def submitted (len : Nat) (r : Int) (k : SendK) : SOut :=
  if r ≠ 0 then
    { s with w := s.w.submitReturned.sendFailed.clearInline }.pumpRet (-1) k
  else if !s.w.inlineDone then
    { s with w := s.w.submitReturned.copied len }.pumpRet 0 k
  else if !s.w.inlineOk then
    { s with w := ((s.w.submitReturned.copied len).clearInline).sendFailed }.pumpRet (-1) k
  else
    { s with w := ((s.w.submitReturned.copied len).clearInline).sendRetired }.pumpCompletion k

/-- The end of a readiness write, with the status of `kl_drain_reserve_write`. -/
def writeReserved (ds : KlDrainWriteStatus) : SOut :=
  match ds with
  | .werror => .done { s with w := s.w.setErr } (.written .error)
  | .wouldBlock => .done { s with w := s.w.setBlocked true } (.written .wouldBlock)
  | .accepted => .done { s with w := s.w.setBlocked false } (.written .accepted)
  | .tooLarge => .done s (.written .tooLarge)

/-- `kl_stream_write`, after the readiness writer reported `n` for `data`. -/
def writeSent (data : List UInt8) (n : Int) : SOut :=
  { s with w := s.w.setQueue (s.w.wq.reserveWriteSent data n).1
    }.writeReserved (s.w.wq.reserveWriteSent data n).2

/-- `kl_stream_write`, up to the first hook. -/
def write (src : SrcBuf) : SOut :=
  if !s.w.wqInited then .done s (.written .error)
  else if s.w.wqErr then .done s (.written .error)
  else if s.c.wqClosing then .done s (.written .closed)
  else if !s.w.submitFn && !s.w.wq.writeFn then .done s (.written .error)
  else if src.len = 0 then .done s (.written .accepted)
  else match src with
    | .null _ => .done s (.written .error)
    | .bytes data =>
      if s.w.submitFn then
        match s.w.wq.reserveBuffer src with
        | (wq, .wouldBlock) =>
          .done { s with w := (s.w.setQueue wq).setBlocked true } (.written .wouldBlock)
        | (wq, .accepted) =>
          { s with w := (s.w.setQueue wq).setBlocked false }.pumpCompletion (.write data)
        | (wq, ds) => .done { s with w := s.w.setQueue wq } (.written (mapDrain ds))
      else
        match s.w.wq.reserveWrite src with
        | .status wq ds => { s with w := s.w.setQueue wq }.writeReserved ds
        | .direct wq => .call { s with w := s.w.setQueue wq } (.writeDirect data)

/-- `kl_stream_flush` from its evaluation of the writable edge on. -/
def flushEdge (r : Int) : SOut :=
  if s.writableEdge then .call { s with w := s.w.enterWritable } (.flushWritable r)
  else if r ≠ 1 then s.onRetire (.int r)
  else .done s (.int r)

/-- `kl_stream_flush` after `kl_drain_flush` returned `r`. -/
def flushTail (r : Int) : SOut :=
  if r < 0 then { s with w := s.w.setErr }.flushEdge r else s.flushEdge r

/-- `kl_stream_flush`, up to the writer. -/
def flush : SOut :=
  if !s.w.wqInited || s.w.wqErr then .done s (.int (-1))
  else if s.w.submitFn || !s.w.wq.writeFn then .done s (.int (-1))
  else if s.w.wq.error then s.flushTail (-1)
  else if s.w.wq.buf.length = 0 then s.flushTail 0
  else .call s .flushPush

/-- `kl_stream_flush`, after the writer reported `n`. -/
def flushPushed (n : Int) : SOut :=
  match s.w.wq.pushSent n with
  | .again wq => .call { s with w := s.w.setQueue wq } .flushPush
  | .stop wq r =>
    { s with w := s.w.setQueue wq }.flushTail (if r < 0 then -1 else wq.flushResult)

/-- `kl_stream_on_write_complete`. -/
def onWriteComplete (ok : Bool) : SOut :=
  if !s.w.wqInited then .done s (.int (-1))
  else if !s.w.sendInflight then .done s (.int (if s.w.wqErr then -1 else 0))
  else if s.w.submitting then .done { s with w := s.w.noteInline ok } (.int 0)
  else if !ok then { s with w := s.w.sendFailed }.completeTail (-1)
  else { s with w := s.w.sendRetired }.pumpCompletion .complete

/-! ## stream_read.c -/

/-- What the caller of `stream_arm` does with its result. -/
def armRet (r : Int) : ArmK → SOut
  | .plain => .done s (.int r)
  | .onRecv => if !s.r.recvInflight then s.onRetire (.int r) else .done s (.int r)

/-- One round of the loop of `stream_arm`, up to `read_arm`. -/
def armLoop (k : ArmK) : SOut :=
  if s.r.readClosed || s.r.readPaused || s.r.recvInflight || s.r.recvHeld then s.armRet 0 k
  else .call { s with r := s.r.post, c := s.c.freshRecv } (.arm k)

/-- `stream_arm`, up to `read_arm`. -/
def streamArm (k : ArmK) : SOut :=
  if s.r.arming then { s with r := s.r.deferRearm }.armRet 0 k
  else s.armLoop k

/-- The round of `stream_arm` after `read_arm` returned `rc`. -/
def armed (rc : Int) (k : ArmK) : SOut :=
  if s.r.completedInline then
    if s.r.rearmPending then { s with r := s.r.armReturned }.armLoop k
    else { s with r := s.r.armReturned }.armRet 0 k
  else if rc < 0 then { s with r := s.r.armReturned.retire.setClosed }.armRet (-1) k
  else { s with r := s.r.armReturned }.armRet 0 k

/-- `stream_deliver_and_continue`, up to `read_deliver`. -/
def deliverAndContinue (len : Nat) (ok : Bool) (k : ArmK) : SOut :=
  if !ok then .call { s with r := s.r.setClosed } (.deliver 0 ok k)
  else .call s (.deliver len ok k)

/-- `stream_deliver_and_continue`, after `read_deliver`. -/
def delivered (ok : Bool) (k : ArmK) : SOut :=
  if !ok then s.armRet 0 k
  else if s.r.readClosed || s.r.readPaused then s.armRet 0 k
  else if s.r.recvInflight then s.armRet 0 k
  else s.streamArm k

/-- `kl_stream_read_start`. -/
def readStart : SOut :=
  if !s.r.readInited then .done s (.int (-1))
  else if s.r.readPaused || s.r.readClosed || s.r.recvInflight || s.r.recvHeld then
    .done s (.int 0)
  else s.streamArm .plain

/-- `kl_stream_on_recv`. -/
def onRecv (len : Nat) (ok : Bool) : SOut :=
  if !s.r.readInited then .done s (.int (-1))
  else if !s.r.recvInflight then .done s (.int 0)
  else if s.r.readClosed then { s with r := s.r.complete }.onRetire (.int 0)
  else if ok && s.r.readCap < len then
    { s with r := s.r.complete.setClosed }.onRetire (.int (-1))
  else if s.r.readPaused then
    { s with r := s.r.complete.hold (if !ok then 0 else len) ok }.onRetire (.int 0)
  else { s with r := s.r.complete }.deliverAndContinue (if !ok then 0 else len) ok .onRecv

/-- `kl_stream_pause`, up to `read_disarm`. -/
def pause : SOut :=
  if !s.r.readInited || s.r.readPaused then .done s .unit
  else if !s.r.readCompletionMode && s.r.recvInflight then
    .call { s with r := s.r.setPaused true } .pauseDisarm
  else .done { s with r := s.r.setPaused true } .unit

/-- `kl_stream_resume`. -/
def resume : SOut :=
  if !s.r.readInited || !s.r.readPaused then .done s (.int 0)
  else if s.r.readClosed then .done { s with r := s.r.setPaused false } (.int 0)
  else if s.r.recvHeld then
    { s with r := (s.r.setPaused false).dropHeld }.deliverAndContinue s.r.heldLen s.r.heldOk .plain
  else if s.r.recvInflight then .done { s with r := s.r.setPaused false } (.int 0)
  else { s with r := s.r.setPaused false }.streamArm .plain

/-! ## The machine -/

def enter : Op → KlStream → SOut
  | .write src, s => s.write src
  | .flush, s => s.flush
  | .onWriteComplete ok, s => s.onWriteComplete ok
  | .readStart, s => s.readStart
  | .onRecv len ok, s => s.onRecv len ok
  | .pause, s => s.pause
  | .resume, s => s.resume
  | .readClose, s => s.readClose .readClose
  | .closeBegin, s => s.closeCommon false
  | .cancel, s => s.closeCommon true

/-- The code after a hook that returned `v`. -/
def afterHook : Frame → Int → KlStream → SOut
  | .writeDirect data, v, s => s.writeSent data v
  | .flushPush, v, s => s.flushPushed v
  | .submit len k, v, s => s.submitted len v k
  | .flushWritable r, _, s =>
    { s with w := s.w.leaveWritable
      }.onRetire (.int (if r = 0 ∧ 0 < s.w.wq.buffered then 1 else r))
  | .completeWritable r, _, s => { s with w := s.w.leaveWritable }.onRetire (.int r)
  | .arm k, v, s => s.armed v k
  | .deliver _ ok k, _, s => s.delivered ok k
  | .pauseDisarm, _, s => .done { s with r := s.r.retire } .unit
  | .closeDisarm k, _, s => { s with r := s.r.retire }.readCloseRet k
  | .cancelRecv, _, s => s.closeCancelSend
  | .cancelSend, _, s => s.closeCancelled
  | .onClose r, _, s => .done s r

/-- The stream as a machine that hands control to its hooks. -/
def machine : Machine KlStream Op Frame Int Ret where
  enter := enter
  resume := afterHook

abbrev SStep := Step KlStream Op Frame Int Ret
abbrev SConfig := Config KlStream Op Frame Int Ret
abbrev SAct := Act Op Int

end KlStream
