-- SUMMARY: The KlStream object: its write, read and close facets.
import Keel.Limits
import Keel.Stream.Drain

/-!
# The stream object

The state of `struct KlStream` (include/keel/stream_detail.h) that the write, read
and close machinery reads, one record for each facet. A hook is a function pointer
of the transport or the owner; what the machinery asks of it is whether it is
installed. `on_retire` and `on_close` are installed by `kl_stream_close_init` and
by nothing else, so `closeInited` stands for both.
-/

/-- `KlStreamCloseState`. -/
inductive KlStreamCloseState where
  | opened
  | closing
  | closed
deriving DecidableEq, Repr

inductive KlStreamWriteStatus where
  | accepted
  | wouldBlock
  | tooLarge
  | closed
  | error
deriving DecidableEq, Repr

/-- The write machinery (src/stream_write.c). -/
structure KlStreamWrite where
  wq : KlDrain := KlDrain.init false
  wqInited : Bool := false
  wqErr : Bool := false
  submitFn : Bool := false
  submitCopying : Bool := false
  sendInflight : Bool := false
  inflightLen : Nat := 0
  inflightCopying : Bool := false
  submitting : Bool := false
  inlineDone : Bool := false
  inlineOk : Bool := false
  wrBlocked : Bool := false
  /-- Depth of `on_writable` calls. -/
  inWritable : Nat := 0
  onWritable : Bool := false
deriving DecidableEq, Repr

/-- The strict read pause/resume machinery (src/stream_read.c). -/
structure KlStreamRead where
  readCap : Nat := 0
  readPaused : Bool := false
  readDisarm : Bool := false
  readCompletionMode : Bool := false
  readInited : Bool := false
  recvInflight : Bool := false
  recvHeld : Bool := false
  heldLen : Nat := 0
  heldOk : Bool := false
  readClosed : Bool := false
  arming : Bool := false
  rearmPending : Bool := false
  completedInline : Bool := false
deriving DecidableEq, Repr

/-- Graceful close and confirmed detachment (src/stream_close.c). -/
structure KlStreamClose where
  closeState : KlStreamCloseState := .opened
  closeAbort : Bool := false
  /-- Depth of close-common frames that are inside a cancel hook. -/
  inCloseCancel : Nat := 0
  closeNotified : Bool := false
  closeInited : Bool := false
  wqClosing : Bool := false
  recvCancelRequested : Bool := false
  sendCancelRequested : Bool := false
  cancelRecv : Bool := false
  cancelSend : Bool := false
deriving DecidableEq, Repr

structure KlStream where
  w : KlStreamWrite := {}
  r : KlStreamRead := {}
  c : KlStreamClose := {}
deriving DecidableEq, Repr

/-! ## Observers -/

/-- `kl_stream_write_pending`: queued bytes, and with a copying backend the bytes
of the send in flight. -/
def KlStreamWrite.pending (w : KlStreamWrite) : Nat :=
  if !w.wqInited then 0
  else if w.inflightCopying && w.sendInflight then
    if SIZE_MAX - w.wq.buffered < w.inflightLen then SIZE_MAX
    else w.wq.buffered + w.inflightLen
  else w.wq.buffered

namespace KlStream

variable (s : KlStream)

/-- `stream_fully_retired`. -/
def fullyRetired : Bool :=
  if s.r.recvInflight then false
  else if s.w.sendInflight then false
  else if !s.c.closeAbort && !s.w.wqErr && 0 < s.w.pending then false
  else true

/-! ## Initializers

Each returns 0 or -1 and the stream. -/

/-- `kl_stream_init`. -/
def init (readCapacity : Nat) : Int × KlStream :=
  if readCapacity = 0 then (-1, {}) else (0, { r := { readCap := readCapacity } })

/-- `kl_stream_write_init`, with an allocation that succeeds. -/
def writeInit (capacity : Nat) : Int × KlStream :=
  if s.w.wqInited then (-1, s)
  else match (KlDrain.init false).preallocate capacity with
    | none => (-1, { s with w.wq := KlDrain.init false })
    | some wq =>
      (0, { s with w := { s.w with
              wq, wqInited := true, wqErr := false, submitFn := false, submitCopying := false,
              sendInflight := false, inflightLen := 0, inflightCopying := false,
              wrBlocked := false, inWritable := 0, onWritable := false } })

/-- `stream_config_locked`. -/
def configLocked : Bool := s.w.sendInflight || 0 < s.w.wq.buffered

/-- `kl_stream_set_writer`. -/
def setWriter (fn : Bool) : Int × KlStream :=
  if !s.w.wqInited || s.configLocked then (-1, s)
  else (0, { s with w.wq.writeFn := fn })

/-- `kl_stream_set_submit`. -/
def setSubmit (fn copying : Bool) : Int × KlStream :=
  if !s.w.wqInited || s.configLocked then (-1, s)
  else (0, { s with w.submitFn := fn, w.submitCopying := copying })

/-- `kl_stream_on_writable`. -/
def setOnWritable (fn : Bool) : Int × KlStream :=
  if !s.w.wqInited then (-1, s)
  else (0, { s with w.onWritable := fn, w.wrBlocked := if fn then s.w.wrBlocked else false })

/-- `kl_stream_read_init`. `deliver` and `arm` are always given. -/
def readInit (completionMode disarm : Bool) : Int × KlStream :=
  if s.r.readInited then (-1, s)
  else if s.r.readCap = 0 then (-1, s)
  else if !completionMode && !disarm then (-1, s)
  else
    (0, { s with r := { s.r with
            readDisarm := disarm, readCompletionMode := completionMode, readInited := true,
            readPaused := false, recvInflight := false, recvHeld := false, heldLen := 0,
            heldOk := false, readClosed := false, arming := false, rearmPending := false,
            completedInline := false } })

/-- `kl_stream_close_init`. -/
def closeInit : Int × KlStream :=
  if s.c.closeInited then (-1, s)
  else
    (0, { s with c := { s.c with
            closeState := .opened, closeAbort := false, inCloseCancel := 0,
            closeNotified := false, wqClosing := false, recvCancelRequested := false,
            sendCancelRequested := false, cancelRecv := false, cancelSend := false,
            closeInited := true } })

/-- `kl_stream_set_cancel`. -/
def setCancel (cancelRecv cancelSend : Bool) : Int × KlStream :=
  if !s.c.closeInited then (-1, s)
  else if s.c.closeState ≠ .opened then (-1, s)
  else (0, { s with c.cancelRecv := cancelRecv, c.cancelSend := cancelSend })

/-- The transport's write side: a readiness writer, or a completion submit hook
that copies the bytes when it is called or refers to them until it completes. -/
inductive Transport where
  | writer
  | submit (copying : Bool)
deriving DecidableEq, Repr

/-- What an adapter chooses when it sets a stream up with all three facets. -/
structure Setup where
  readCap : Nat
  readCap_pos : 0 < readCap
  capacity : Nat
  capacity_pos : 0 < capacity
  transport : Transport
  onWritable : Bool
  completionMode : Bool
  disarm : Bool
  /-- A readiness pause has to drop the read interest. -/
  disarm_of_readiness : completionMode = false → disarm = true
  cancelRecv : Bool
  cancelSend : Bool

/-- The stream an adapter gets from the initializers. -/
def Setup.stream (u : Setup) : KlStream :=
  let s := (init u.readCap).2
  let s := (s.writeInit u.capacity).2
  let s := match u.transport with
    | .writer => (s.setWriter true).2
    | .submit copying => (s.setSubmit true copying).2
  let s := (s.setOnWritable u.onWritable).2
  let s := (s.readInit u.completionMode u.disarm).2
  let s := s.closeInit.2
  (s.setCancel u.cancelRecv u.cancelSend).2

/-- No initializer refuses, and the stream starts open, empty and idle. -/
theorem Setup.stream_eq (u : Setup) : u.stream =
      { w := { wq := { writeFn := u.transport = .writer, buf := [], bufCap := u.capacity,
                       maxSize := u.capacity, error := false, prealloc := true }
               wqInited := true
               submitFn := u.transport ≠ .writer
               submitCopying := u.transport = .submit true
               onWritable := u.onWritable }
        r := { readCap := u.readCap
               readDisarm := u.disarm
               readCompletionMode := u.completionMode
               readInited := true }
        c := { closeInited := true
               cancelRecv := u.cancelRecv
               cancelSend := u.cancelSend } } := by
  have hr : u.readCap ≠ 0 := Nat.pos_iff_ne_zero.mp u.readCap_pos
  have hw : u.capacity ≠ 0 := Nat.pos_iff_ne_zero.mp u.capacity_pos
  have hd : (!u.completionMode && !u.disarm) = false := by
    cases hm : u.completionMode with
    | true => rfl
    | false => simp [u.disarm_of_readiness hm]
  cases ht : u.transport with
  | writer =>
    simp [Setup.stream, init, writeInit, KlDrain.preallocate, KlDrain.init, setWriter,
      configLocked, KlDrain.buffered, setOnWritable, readInit, closeInit, setCancel, hr, hw, hd, ht]
  | submit copying =>
    cases copying <;>
    simp [Setup.stream, init, writeInit, KlDrain.preallocate, KlDrain.init, setSubmit,
      configLocked, KlDrain.buffered, setOnWritable, readInit, closeInit, setCancel, hr, hw, hd, ht]

end KlStream
