-- SUMMARY: The datagram receive machine (src/datagram_recv.c).
import Keel.Datagram.Slots
import Keel.Reentrant.Machine

/-!
# Datagram receive

Each function of src/datagram_recv.c, cut at its hook calls. Every entry point that
reaches a hook returns what the function called last returned, so a frame keeps no
more than the loop it came from.

Beside the fields of the source the state keeps a record of what the provider
handed over: `received` lists every receive that ended with a datagram or failed,
`current` is the position in that list of what the inbound slot was filled with
last, and `arms` counts the calls of the arm hook. The machine reads none of them.
-/

open Reentrant

/-- A datagram borrowed from the cursor of a batch; `data` may be NULL. -/
structure KlDgramRxView where
  data : Option (List UInt8) := none
  len : Nat := 0
  peer : KlSockAddr := .unspec
  localAddr : KlSockAddr := .unspec
  flags : KlDgramFlags := {}
deriving DecidableEq, Repr

/-- What a provider writes into the inbound slot. -/
structure KlDgramRecv.Fill where
  data : List UInt8 := []
  peer : KlSockAddr := .unspec
  localAddr : KlSockAddr := .unspec
  tos : Int := -1
  flags : KlDgramFlags := {}
deriving DecidableEq, Repr

/-- One receive that came to an end: a datagram in the inbound slot with the length the
provider reports, a borrowed view, or a failure. -/
inductive KlDgramRecv.Arrival where
  | datagram (fill : KlDgramRecv.Fill) (reported : Nat)
  | view (v : KlDgramRxView)
  | failed
deriving DecidableEq, Repr

structure KlDgramRecv where
  inbound : KlDgramSlot
  completion : Bool
  viewPull : Bool := false
  started : Bool := false
  paused : Bool := false
  stopped : Bool := false
  error : Bool := false
  recvInflight : Bool := false
  held : Bool := false
  heldLen : Nat := 0
  arming : Bool := false
  rearmPending : Bool := false
  completedInline : Bool := false
  received : List KlDgramRecv.Arrival := []
  current : Nat := 0
  arms : Nat := 0

namespace KlDgramRecv

/-- `KL_DGRAM_RECV_BUDGET`. -/
def budget : Nat := 64

/-- `kl_dgram_recv_init`: a slot without room is refused. -/
def init (inbound : KlDgramSlot) (completion : Bool) : Option KlDgramRecv :=
  if inbound.cap = 0 then none else some { inbound := inbound, completion := completion }

variable (r : KlDgramRecv)

/-- `kl_dgram_recv_set_view_pull`, with a hook. -/
def setViewPull : KlDgramRecv := { r with viewPull := true }

/-! ## Frames -/

/-- The arguments of a call of the deliver hook, with the position of the datagram in
`received` and the number of arms before the call. -/
structure Delivery where
  data : Option (List UInt8)
  len : Nat
  peer : KlSockAddr
  localAddr : Option KlSockAddr
  flags : KlDgramFlags
  id : Nat
  arms : Nat
deriving DecidableEq, Repr

/-- What the caller of the deliver hook does next: `recv_deliver_and_continue`, the loop
of `kl_dgram_recv_on_readable`, or `recv_drive_view`. -/
inductive DeliverK where
  | rearm
  | readable (budget : Nat)
  | view (budget : Nat) (allowRefill : Bool)
deriving DecidableEq, Repr

/-- A hook call in progress. A frame of `disarm` keeps what the operation returns. -/
inductive Frame where
  | arm
  | disarm (ret : Int)
  | pull (budget : Nat)
  | viewPull (budget : Nat) (allowRefill : Bool)
  | deliver (d : Delivery) (k : DeliverK)
deriving DecidableEq, Repr

/-- What a hook returns, and what it writes through its arguments. -/
structure Answer where
  r : Int := 0
  fill : Fill := {}
  len : Nat := 0
  view : KlDgramRxView := {}
deriving DecidableEq, Repr

inductive Op where
  | start
  | onComplete (fill : Fill) (len : Nat) (ok : Bool)
  | onReadable
  | pause
  | resume
  | stop
deriving DecidableEq, Repr

/-- How a stretch of receive code ends. Entry points without a result return 0. -/
abbrev ROut := Out KlDgramRecv Frame Int

/-! ## The inbound slot -/

/-- `recv_reset_inbound`. -/
@[simp] def resetInbound : KlDgramRecv := { r with
    inbound := { r.inbound with peer := .unspec, localAddr := .unspec, len := 0, flags := {},
                                tos := -1 } }

/-- The provider fills the slot with the next datagram. -/
@[simp] def accept (f : Fill) (reported : Nat) : KlDgramRecv := { r with
    inbound := { r.inbound with
      data := f.data, peer := f.peer, localAddr := f.localAddr, tos := f.tos, flags := f.flags }
    received := r.received ++ [.datagram f reported], current := r.received.length }

/-- The cursor yields the next view. -/
@[simp] def acceptView (v : KlDgramRxView) : KlDgramRecv :=
  { r with received := r.received ++ [.view v] }

/-- The provider reports a failure. -/
@[simp] def acceptFailure : KlDgramRecv := { r with received := r.received ++ [.failed] }

/-- How the outstanding receive ended. -/
@[simp] def arrive (f : Fill) (reported : Nat) (ok : Bool) : KlDgramRecv :=
  if ok then r.accept f reported else r.acceptFailure

variable (slot : KlDgramSlot)

/-- The slot has a local address that its provider declared. -/
def slotHasLocal : Bool := slot.flags.hasLocal && slot.localAddr != .unspec

/-- The slot as `recv_finalize` leaves it. -/
def canonicalSlot (reported : Nat) : KlDgramSlot := { slot with
    localAddr := if slotHasLocal slot then slot.localAddr else .unspec
    len := if slot.cap < reported then slot.cap else reported
    flags := {
      truncated := decide (slot.cap < reported) || slot.flags.truncated
      hasLocal := slotHasLocal slot } }

theorem canonicalSlot_len (reported : Nat) :
    (canonicalSlot slot reported).len = min reported slot.cap := by
  simp only [canonicalSlot]
  split <;> omega

theorem canonicalSlot_truncated (reported : Nat) :
    (canonicalSlot slot reported).flags.truncated = true ↔
      slot.cap < reported ∨ slot.flags.truncated = true := by
  simp [canonicalSlot]

theorem canonicalSlot_hasLocal (reported : Nat) :
    (canonicalSlot slot reported).flags.hasLocal = true ↔
      slot.flags.hasLocal = true ∧ slot.localAddr ≠ .unspec := by
  simp [canonicalSlot, slotHasLocal]

theorem canonicalSlot_localAddr {slot : KlDgramSlot} {reported : Nat}
    (h : (canonicalSlot slot reported).flags.hasLocal = true) :
    (canonicalSlot slot reported).localAddr = slot.localAddr :=
  if_pos h

@[simp] def canonical (reported : Nat) : KlDgramRecv :=
  { r with inbound := canonicalSlot r.inbound reported }

/-- `recv_finalize`: `none` when the peer is absent. -/
def finalize (reported : Nat) : Option KlDgramRecv :=
  if r.inbound.peer = .unspec then none else some (r.canonical reported)

/-- The arguments `recv_present` passes. -/
def presented : Delivery where
  data := some r.inbound.data
  len := r.inbound.len
  peer := r.inbound.peer
  localAddr := if r.inbound.flags.hasLocal then some r.inbound.localAddr else none
  flags := r.inbound.flags
  id := r.current
  arms := r.arms

/-- `recv_present`. -/
def present (k : DeliverK) : ROut := .call r (.deliver r.presented k)

/-! ## Updates -/

/-- The receive is armed before the arm hook runs. -/
@[simp] def beginArm : KlDgramRecv := { r.resetInbound with
    recvInflight := true, completedInline := false, rearmPending := false, arming := true
    arms := r.arms + 1 }
@[simp] def endArm : KlDgramRecv := { r with arming := false }
/-- The receive side is over without an error of its own. -/
@[simp] def armFailed : KlDgramRecv :=
  { r with arming := false, recvInflight := false, stopped := true }
@[simp] def deferArm : KlDgramRecv := { r with rearmPending := true }
@[simp] def retire : KlDgramRecv := { r with recvInflight := false }
/-- The outstanding receive completed, perhaps inside the arm hook. -/
@[simp] def completed : KlDgramRecv :=
  { r with recvInflight := false, completedInline := r.completedInline || r.arming }
/-- The finalized datagram stays in the slot. -/
@[simp] def hold : KlDgramRecv := { r with held := true, heldLen := r.inbound.len }
@[simp] def unhold : KlDgramRecv := { r with held := false, heldLen := 0 }
@[simp] def setPaused (b : Bool) : KlDgramRecv := { r with paused := b }
@[simp] def setStarted : KlDgramRecv := { r with started := true }
@[simp] def failed : KlDgramRecv :=
  { r with error := true, stopped := true, held := false, heldLen := 0 }
@[simp] def setStopped : KlDgramRecv := { r with stopped := true, held := false, heldLen := 0 }

/-! ## Arming -/

/-- The loop of `recv_arm`, up to the arm hook. -/
def armLoop : ROut :=
  if r.stopped || r.paused || r.recvInflight || r.held then .done r 0
  else .call r.beginArm .arm

/-- `recv_arm`. -/
def recvArm : ROut := if r.arming then .done r.deferArm 0 else r.armLoop

/-- The loop of `recv_arm` after the arm hook. -/
def armReturned (rc : Int) : ROut :=
  if r.completedInline then
    if r.rearmPending then r.endArm.armLoop else .done r.endArm 0
  else if rc < 0 then .done r.armFailed (-1)
  else .done r.endArm 0

/-- `recv_deliver_and_continue` after the callback. -/
def continueAfter : ROut :=
  if r.stopped || r.paused then .done r 0
  else if r.recvInflight then .done r 0
  else r.recvArm

/-- `recv_fail`; every caller then returns -1. -/
def recvFail : ROut :=
  if !r.completion && r.recvInflight then .call r.failed (.disarm (-1)) else .done r.failed (-1)

/-- After the disarm hook. -/
def disarmed (ret : Int) : ROut := .done r.retire ret

/-! ## Readable events -/

/-- The loop of `kl_dgram_recv_on_readable`. -/
def readLoop (budget : Nat) : ROut :=
  if !r.paused && !r.stopped && r.recvInflight && decide (0 < budget) then
    .call r.resetInbound (.pull (budget - 1))
  else .done r 0

/-- The end of a receive into the slot: `recv_finalize`, and what follows it with the
finalized datagram. -/
def finish (reported : Nat) (next : KlDgramRecv → ROut) : ROut :=
  match r.finalize reported with
  | none => r.recvFail
  | some r' => next r'

/-- The loop of `kl_dgram_recv_on_readable` after `pull`. -/
def pullReturned (budget : Nat) (a : Answer) : ROut :=
  if a.r = 0 then .done r 0
  else if a.r < 0 then r.acceptFailure.recvFail
  else (r.accept a.fill a.len).finish a.len (·.present (.readable budget))

/-- After the loop of `recv_drive_view`, when nothing failed: `kl_dgram_recv_resume` goes
on to arm. -/
def viewDrained (allowRefill : Bool) : ROut :=
  if allowRefill then .done r 0
  else if !r.paused && !r.stopped && !r.recvInflight then r.recvArm
  else .done r 0

/-- The loop of `recv_drive_view`, up to `view_pull`. -/
def driveView (budget : Nat) (allowRefill : Bool) : ROut :=
  if !r.paused && !r.stopped then .call r (.viewPull budget allowRefill)
  else r.viewDrained allowRefill

/-- The arguments `recv_present_view` passes for a view that has just arrived. -/
def presentedView (v : KlDgramRxView) : Delivery where
  data := v.data
  len := v.len
  peer := v.peer
  localAddr := if v.flags.hasLocal then some v.localAddr else none
  flags := v.flags
  id := r.received.length
  arms := r.arms

/-- `recv_present_view` of a view that has just arrived. -/
def presentView (v : KlDgramRxView) (k : DeliverK) : ROut :=
  if v.peer = .unspec then (r.acceptView v).recvFail
  else if 0 < v.len ∧ v.data = none then (r.acceptView v).recvFail
  else .call (r.acceptView v) (.deliver (r.presentedView v) k)

/-- The loop of `recv_drive_view` after `view_pull`. -/
def viewPullReturned (budget : Nat) (allowRefill : Bool) (a : Answer) : ROut :=
  if a.r = 0 then r.viewDrained allowRefill
  else if a.r < 0 then r.acceptFailure.recvFail
  else r.presentView a.view (.view (budget - 1) allowRefill)

/-! ## Entry points -/

/-- `kl_dgram_recv_start`. -/
def start : ROut :=
  if r.paused || r.stopped || r.recvInflight || r.held then .done r.setStarted 0
  else r.setStarted.recvArm

/-- `kl_dgram_recv_on_complete` with a finalized datagram. -/
def holdOrDeliver : ROut := if r.paused then .done r.hold 0 else r.present .rearm

/-- `kl_dgram_recv_on_complete`. The provider writes into the slot only while a receive is
outstanding. -/
def onComplete (f : Fill) (len : Nat) (ok : Bool) : ROut :=
  if !r.recvInflight then .done r 0
  else if r.stopped then .done (r.completed.arrive f len ok) 0
  else if !ok then r.completed.acceptFailure.recvFail
  else (r.completed.accept f len).finish len holdOrDeliver

/-- `kl_dgram_recv_on_readable`. -/
def onReadable : ROut :=
  if r.completion then .done r (-1)
  else if r.stopped || r.paused || !r.recvInflight then .done r 0
  else if r.viewPull then r.driveView budget true
  else r.readLoop budget

/-- `kl_dgram_recv_pause`. -/
def pause : ROut :=
  if r.paused then .done r 0
  else if !r.completion && r.recvInflight then .call (r.setPaused true) (.disarm 0)
  else .done (r.setPaused true) 0

/-- `kl_dgram_recv_resume`. -/
def resume : ROut :=
  if !r.paused then .done r 0
  else if r.stopped then .done (r.setPaused false) 0
  else if r.viewPull then (r.setPaused false).driveView budget false
  else if r.held then (r.setPaused false).unhold.present .rearm
  else if r.recvInflight then .done (r.setPaused false) 0
  else (r.setPaused false).recvArm

/-- `kl_dgram_recv_stop`. -/
def stop : ROut :=
  if r.stopped then .done r 0
  else if !r.completion then
    if r.recvInflight then .call r.setStopped (.disarm 0) else .done r.setStopped.retire 0
  else .done r.setStopped 0

theorem stop_stopped : r.stop.state.stopped = true := by
  unfold stop
  split
  · assumption
  split
  · split <;> rfl
  · rfl

/-! ## The machine -/

def enter : Op → KlDgramRecv → ROut
  | .start, r => r.start
  | .onComplete f len ok, r => r.onComplete f len ok
  | .onReadable, r => r.onReadable
  | .pause, r => r.pause
  | .resume, r => r.resume
  | .stop, r => r.stop

/-- After the deliver hook. -/
def delivered : DeliverK → ROut
  | .rearm => r.continueAfter
  | .readable budget => r.readLoop budget
  | .view budget allowRefill => r.driveView budget allowRefill

/-- The code after a hook that answered `a`. -/
def afterHook : Frame → Answer → KlDgramRecv → ROut
  | .arm, a, r => r.armReturned a.r
  | .disarm ret, _, r => r.disarmed ret
  | .pull budget, a, r => r.pullReturned budget a
  | .viewPull budget allowRefill, a, r => r.viewPullReturned budget allowRefill a
  | .deliver _ k, _, r => r.delivered k

/-- The receive machine as one that hands control to its hooks. -/
def machine : Machine KlDgramRecv Op Frame Answer Int where
  enter := enter
  resume := afterHook

abbrev RStep := Step KlDgramRecv Op Frame Answer Int
abbrev RConfig := Config KlDgramRecv Op Frame Answer Int
abbrev RAct := Act Op Answer

end KlDgramRecv
