-- SUMMARY: The datagram close coordinator (src/datagram_close.c).
import Keel.Datagram.Receive
import Keel.Datagram.SendRuns

/-!
# Datagram close

Each function of src/datagram_close.c, cut at its hook calls, together with the two
machines it coordinates. The machines bracket their operations with `on_activity`, so a
call into one of them may end in the terminal step of the coordinator. A frame of that
step keeps what the interrupted operation returns.

`kl_dgram_close_hold` and `kl_dgram_close_release` bracket code of the caller. They are
one operation with a frame: what the caller does between them happens above it, and the
release is its return.

Beside the fields of the source the state keeps what the backend knows about each
operation. It is settled once, by `classify`, at a time of the backend's choosing.
-/

open Reentrant

/-- The phase of a close. -/
inductive KlDgramCloseState where
  | opened
  | closing
  | closed
deriving DecidableEq, Repr

/-- How a close ended. -/
inductive KlDatagramCloseResult where
  | none
  | detached
  | quarantined
  | closeError
deriving DecidableEq, Repr

inductive KlDgramRetireResult where
  | pending
  | retired
  | quarantined
deriving DecidableEq, Repr

inductive KlDgramOpKind where
  | recv
  | send
deriving DecidableEq, Repr

structure KlDgramClose where
  send : KlDgramSend
  recv : KlDgramRecv
  state : KlDgramCloseState := .opened
  abort : Bool := false
  notified : Bool := false
  busy : Nat := 0
  detaching : Bool := false
  recvCancelRequested : Bool := false
  sendCancelRequested : Bool := false
  backendRetired : Bool := false
  abandon : Bool := false
  cancelRecv : Bool := false
  cancelSend : Bool := false
  backendClose : Bool := false
  retire : Bool := false
  result : KlDatagramCloseResult := .none
  onClose : Bool := false
  recvClass : KlDgramRetireResult := .pending
  sendClass : KlDgramRetireResult := .pending

namespace KlDgramClose

/-! ## Frames -/

/-- What a public call returns: of the send machine, of the receive machine, or of the
coordinator. -/
inductive Ret where
  | send (r : KlDgramSend.Ret)
  | recv (r : Int)
  | close (r : Int)
deriving DecidableEq, Repr

/-- Who called `close_abort_cleanup`: `close_common` or the terminal step. -/
inductive CleanupK where
  | common
  | terminal (ret : Ret)
deriving DecidableEq, Repr

/-- A hook call in progress. -/
inductive Frame where
  | send (f : KlDgramSend.Frame)
  | recv (f : KlDgramRecv.Frame)
  /-- The disarm hook, in the `kl_dgram_recv_stop` of `close_common`. -/
  | stop
  | cancelSend (k : CleanupK)
  | cancelRecv (k : CleanupK)
  /-- `cancel_recv`, in the backend step. -/
  | retireRecv (ret : Ret)
  | backend (ret : Ret)
  | classify (kind : KlDgramOpKind) (quarantined transportErr abandoned : Bool) (ret : Ret)
  | onClose (result : KlDatagramCloseResult) (ret : Ret)
  | held
  /-- A null ring position was read. -/
  | fault
deriving DecidableEq, Repr

/-- What a hook returns. -/
structure Answer where
  send : KlDgramSend.Answer := {}
  recv : KlDgramRecv.Answer := {}
  retire : KlDgramRetireResult := .pending
  transportErr : Bool := false
deriving DecidableEq, Repr

/-- The operations of the send machine that are not the coordinator's own. -/
inductive SendOp where
  | send (m : KlDatagramMessage)
  | enqueue (m : KlDatagramMessage)
  | enqueueGso (g : GsoRequest)
  | flush
  | flushBatch (cap : Nat)
  | onComplete (outcome : KlDgramSendOutcome)
  | setConnected (on : Bool)
deriving DecidableEq, Repr

def SendOp.op : SendOp → KlDgramSend.Op
  | .send m => .send m
  | .enqueue m => .enqueue m
  | .enqueueGso g => .enqueueGso g
  | .flush => .flush
  | .flushBatch cap => .flushBatch cap
  | .onComplete outcome => .onComplete outcome
  | .setConnected on => .setConnected on

inductive Op where
  | send (op : SendOp)
  | recv (op : KlDgramRecv.Op)
  | beginClose
  | cancel
  | abandon
  | retry
  | hold
  /-- The backend settles what became of an operation. -/
  | classify (kind : KlDgramOpKind) (v : KlDgramRetireResult)
deriving DecidableEq, Repr

abbrev COut := Out KlDgramClose Frame Ret

/-! ## Reading -/

variable (c : KlDgramClose) (kind : KlDgramOpKind)

/-- What became of an operation, as far as the backend knows. Without a classifier every
operation counts as retired. -/
def opClass : KlDgramRetireResult :=
  if c.retire then
    match kind with
    | .recv => c.recvClass
    | .send => c.sendClass
  else .retired

/-- `close_send_drained`. -/
def sendDrained : Bool := c.send.inflightN == 0 && c.send.count == 0

/-- `close_fully_retired`. -/
def fullyRetired : Bool := !c.recv.recvInflight && c.sendDrained

/-! ## Updates -/

@[simp] def setSend (s : KlDgramSend) : KlDgramClose := { c with send := s }
@[simp] def setRecv (r : KlDgramRecv) : KlDgramClose := { c with recv := r }
/-- `close_enter`. -/
@[simp] def closeEnter : KlDgramClose := { c with busy := c.busy + 1 }
@[simp] def left : KlDgramClose := { c with busy := c.busy - 1 }
@[simp] def setAbort : KlDgramClose := { c with abort := true }
@[simp] def setAbandon : KlDgramClose := { c with abandon := true }
@[simp] def setDetaching (b : Bool) : KlDgramClose := { c with detaching := b }
@[simp] def askSend : KlDgramClose := { c with sendCancelRequested := true }
@[simp] def askRecv : KlDgramClose := { c with recvCancelRequested := true }
@[simp] def retireBackend : KlDgramClose := { c with backendRetired := true }
/-- New sends are refused. -/
@[simp] def startClosing : KlDgramClose := { c with state := .closing, send := c.send.close }
@[simp] def setClosed (result : KlDatagramCloseResult) : KlDgramClose :=
  { c with state := .closed, notified := true, result := result }
@[simp] def setClass (v : KlDgramRetireResult) : KlDgramOpKind → KlDgramClose
  | .recv => { c with recvClass := v }
  | .send => { c with sendClass := v }

/-! ## The terminal step -/

/-- `close_detach`. -/
def detach (result : KlDatagramCloseResult) (ret : Ret) : COut :=
  if c.notified then .done { c with state := .closed } ret
  else if c.onClose then .call (c.setClosed result) (.onClose result ret)
  else .done (c.setClosed result) ret

/-- `close_run_terminal` once `close_join_result` has returned `res`. -/
def conclude (abandoned : Bool) (ret : Ret) (res : KlDatagramCloseResult) : COut :=
  if res = .none then
    if abandoned then (c.setDetaching false).detach .detached ret
    else .done (c.setDetaching false) ret
  else (c.setDetaching false).detach res ret

/-- `close_join_result`, up to the first call of the classifier. -/
def joinResult (abandoned : Bool) (ret : Ret) : COut :=
  if c.retire then .call c (.classify .recv false false abandoned ret)
  else c.conclude abandoned ret .detached

/-- `close_join_result` with every operation classified. -/
def joined (quarantined transportErr : Bool) : KlDatagramCloseResult :=
  if quarantined then .quarantined else if transportErr then .closeError else .detached

/-- The loop of `close_join_result` after an operation that is not pending. -/
def joinNext (quarantined transportErr abandoned : Bool) (ret : Ret) :
    KlDgramOpKind → COut
  | .recv => .call c (.classify .send quarantined transportErr abandoned ret)
  | .send => c.conclude abandoned ret (joined quarantined transportErr)

/-- The loop of `close_join_result` after the classifier. -/
def classified (quarantined transportErr abandoned : Bool)
    (ret : Ret) (a : Answer) : COut :=
  match a.retire with
  | .pending => c.conclude abandoned ret .none
  | .retired => c.joinNext quarantined (transportErr || a.transportErr) abandoned ret kind
  | .quarantined => c.joinNext true (transportErr || a.transportErr) abandoned ret kind

variable (ret : Ret)

/-- `close_run_terminal` from the machine-level gate on. -/
def terminalResult : COut :=
  if c.abandon then c.joinResult true ret
  else if c.fullyRetired then c.joinResult false ret
  else .done (c.setDetaching false) ret

/-- The transport is closed. -/
def closeBackend : COut := if c.backendClose then .call c (.backend ret) else c.terminalResult ret

/-- An outstanding receive is to be cancelled, and was not before. -/
def cancelsRecv : Bool := c.recv.recvInflight && c.cancelRecv && !c.recvCancelRequested

/-- An outstanding send is to be cancelled, and was not before. -/
def cancelsSend : Bool := c.send.inflightN != 0 && c.cancelSend && !c.sendCancelRequested

/-- `close_run_terminal` from the backend retirement on. -/
def backendStep : COut :=
  if !c.backendRetired && (c.sendDrained || c.abandon) then
    if c.cancelsRecv then .call c.retireBackend.askRecv (.retireRecv ret)
    else c.retireBackend.closeBackend ret
  else c.terminalResult ret

/-- A send error makes the queue of a graceful close undrainable. -/
def escalates : Bool := !c.abort && c.send.err && !c.sendDrained

/-! ## Cleanup -/

/-- `close_abort_cleanup` from the receive side on, and what its caller does `next`. -/
def requestRecv (k : CleanupK) (next : KlDgramClose → COut) : COut :=
  if c.cancelsRecv then .call c.askRecv (.cancelRecv k) else next c

/-- `close_abort_cleanup` once the queue is discarded. -/
def requestSend (k : CleanupK) (next : KlDgramClose → COut) : COut :=
  if c.cancelsSend then .call c.askSend (.cancelSend k) else c.requestRecv k next

/-- `close_abort_cleanup`. -/
def abortCleanup (k : CleanupK) (next : KlDgramClose → COut) : COut :=
  match c.send.discardQueued with
  | none => .call c.setAbort .fault
  | some s => (c.setAbort.setSend s).requestSend k next

/-- `close_run_terminal`. -/
def runTerminal : COut :=
  if c.state ≠ .closing ∨ c.detaching = true then .done c ret
  else if c.escalates then (c.setDetaching true).abortCleanup (.terminal ret) (·.backendStep ret)
  else (c.setDetaching true).backendStep ret

/-- `close_leave`, as the last thing that an operation with result `ret` does. -/
def closeLeave : COut := if c.left.busy = 0 then c.left.runTerminal ret else .done c.left ret

/-- After `close_abort_cleanup`. -/
def cleanupDone : CleanupK → COut
  | .common => c.closeLeave (.close 0)
  | .terminal ret => c.backendStep ret

/-! ## The machines under the coordinator -/

/-- An operation of the send machine goes on inside its activity bracket. -/
def bracketSend : KlDgramSend.SOut → COut
  | .done s r => (c.setSend s).closeLeave (.send r)
  | .call s f => .call (c.setSend s) (.send f)

/-- An operation of the receive machine goes on inside its activity bracket. -/
def bracketRecv : KlDgramRecv.ROut → COut
  | .done r v => (c.setRecv r).closeLeave (.recv v)
  | .call r f => .call (c.setRecv r) (.recv f)

/-- An operation of the send machine that has no bracket. -/
def plainSend : KlDgramSend.SOut → COut
  | .done s r => .done (c.setSend s) (.send r)
  | .call s f => .call (c.setSend s) (.send f)

/-- An operation of the receive machine that has no bracket. -/
def plainRecv : KlDgramRecv.ROut → COut
  | .done r v => .done (c.setRecv r) (.recv v)
  | .call r f => .call (c.setRecv r) (.recv f)

/-- The calls that get as far as `send_enter`. -/
def SendOp.active (s : KlDgramSend) : SendOp → Bool
  | .send m => s.validate m == .accepted
  | .flush => true
  | .flushBatch cap => cap != 0 && !s.completion && s.inflightN == 0
  | .onComplete _ => s.inflightN != 0
  | .enqueue _ | .enqueueGso _ | .setConnected _ => false

/-- The calls that get as far as `recv_enter`. -/
def recvActive (r : KlDgramRecv) : KlDgramRecv.Op → Bool
  | .start => !(r.paused || r.stopped || r.recvInflight || r.held)
  | .onComplete _ _ _ => r.recvInflight
  | .onReadable => !r.completion && !(r.stopped || r.paused || !r.recvInflight)
  | .pause => !r.paused
  | .resume => r.paused
  | .stop => !r.stopped

def enterSend (op : SendOp) : COut :=
  if op.active c.send then c.closeEnter.bracketSend (c.send.enter op.op)
  else c.plainSend (c.send.enter op.op)

def enterRecv (op : KlDgramRecv.Op) : COut :=
  if recvActive c.recv op then c.closeEnter.bracketRecv (c.recv.enter op)
  else c.plainRecv (c.recv.enter op)

/-! ## Entry points -/

/-- `close_common` once the receive side is stopped. -/
def commonTail : COut :=
  if c.abort then c.abortCleanup .common (·.closeLeave (.close 0)) else c.closeLeave (.close 0)

/-- `kl_dgram_recv_stop`, called by `close_common`. Its own bracket cannot be the last one
to close. -/
def stopRecv : COut :=
  match c.recv.stop with
  | .done r _ => (c.setRecv r).commonTail
  | .call r _ => .call (c.closeEnter.setRecv r) .stop

/-- `close_common`. -/
def closeCommon (abort : Bool) : COut :=
  if c.state = .closed then .done c (.close 0)
  else
    let c := if abort then c.closeEnter.setAbort else c.closeEnter
    if c.state = .opened then c.startClosing.stopRecv else c.commonTail

/-- `kl_dgram_close_abandon`. -/
def closeAbandon : COut :=
  if c.state = .closed then .done c (.close 0) else c.setAbandon.closeCommon true

/-- `kl_dgram_close_retry`. -/
def closeRetry : COut :=
  if c.state ≠ .closing then .done c (.close 0) else c.closeEnter.closeLeave (.close 0)

/-- What is settled stays settled. -/
def settle (v : KlDgramRetireResult) : KlDgramClose :=
  if c.opClass kind = .pending then c.setClass v kind else c

/-! ## The machine -/

def enter : Op → KlDgramClose → COut
  | .send op, c => c.enterSend op
  | .recv op, c => c.enterRecv op
  | .beginClose, c => c.closeCommon false
  | .cancel, c => c.closeCommon true
  | .abandon, c => c.closeAbandon
  | .retry, c => c.closeRetry
  | .hold, c => .call c.closeEnter .held
  | .classify kind v, c => .done (c.settle kind v) (.close 0)

/-- The code after a hook that answered `a`. -/
def afterHook : Frame → Answer → KlDgramClose → COut
  | .send f, a, c => c.bracketSend (c.send.afterHook f a.send)
  | .recv f, a, c => c.bracketRecv (c.recv.afterHook f a.recv)
  | .stop, _, c => (c.left.setRecv c.recv.retire).commonTail
  | .cancelSend k, _, c => c.requestRecv k (·.cleanupDone k)
  | .cancelRecv k, _, c => c.cleanupDone k
  | .retireRecv ret, _, c => c.closeBackend ret
  | .backend ret, _, c => c.terminalResult ret
  | .classify kind q te abandoned ret, a, c => c.classified kind q te abandoned ret a
  | .onClose _ ret, _, c => .done c ret
  | .held, _, c => c.closeLeave (.close 0)
  | .fault, _, c => .call c .fault

/-- The coordinator and its two machines as one that hands control to its hooks. -/
def machine : Machine KlDgramClose Op Frame Answer Ret where
  enter := enter
  resume := afterHook

abbrev CStep := Step KlDgramClose Op Frame Answer Ret
abbrev CConfig := Config KlDgramClose Op Frame Answer Ret
abbrev CAct := Act Op Answer

/-! ## Setting up -/

/-- What the owner of a datagram handle decides on. -/
structure Setup where
  send : KlDgramSend.Setup
  inbound : KlDgramSlot := { cap := 1 }
  completion : Bool := false
  viewPull : Bool := false
  cancelRecv : Bool := false
  cancelSend : Bool := false
  backendClose : Bool := false
  retire : Bool := false
  onClose : Bool := false

/-- The two machines, then `kl_dgram_close_init` with its hooks. -/
def Setup.build (cfg : Setup) : Option KlDgramClose :=
  cfg.send.build.bind fun s =>
    (KlDgramRecv.init cfg.inbound cfg.completion).map fun r => {
      send := s, recv := if cfg.viewPull then r.setViewPull else r, cancelRecv := cfg.cancelRecv
      cancelSend := cfg.cancelSend, backendClose := cfg.backendClose, retire := cfg.retire
      onClose := cfg.onClose }

end KlDgramClose
