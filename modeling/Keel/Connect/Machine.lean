-- SUMMARY: The outbound connect KlConnectOp (src/connect_op.c).
import Keel.Reentrant.Machine

/-!
# The connect operation

Each function of src/connect_op.c, cut at its hook calls. Whatever an entry point
does last is `co_finalize`, also when it reached its end through `co_start_next` or
`co_terminal`, so these two need no argument that says what comes next.

A timer belongs to the surrounding code. What the operation knows of it is the
`armed` flag; `live` says whether the timer really exists, and `events` counts its
firings and its cancellations. The operation reads neither of the two.
-/

open Reentrant

inductive KlConnectOpState where
  | idle
  | resolving
  | connecting
  | done
  | detached
deriving DecidableEq, Repr

inductive KlConnectResult where
  | success
  | failed
  | cancelled
deriving DecidableEq, Repr

/-- Which hooks an adapter installs. -/
structure KlConnectOpHooks where
  startResolve : Bool
  cancelResolve : Bool
  startAttempt : Bool
  cancelAttempt : Bool
  disposeFd : Bool
  armDelay : Bool
  cancelDelay : Bool
  armDeadline : Bool
  cancelDeadline : Bool
  onDone : Bool
  onDetach : Bool
deriving DecidableEq, Repr

/-- One of the two timers. -/
structure KlConnectTimer where
  armed : Bool := false
  live : Bool := false
  events : Nat := 0
deriving DecidableEq, Repr

namespace KlConnectTimer

variable (t : KlConnectTimer)

/-- Marked before the arm hook runs, so that an inline firing is seen. -/
@[simp] def mark : KlConnectTimer := { t with armed := true }

/-- The arm hook that was called after `ev` events returned `r`. It created a timer if
it says so, and if that timer has neither fired nor been cancelled since. -/
@[simp] def armReturned (ev : Nat) (r : Int) : KlConnectTimer :=
  { t with armed := t.armed && 0 ≤ r, live := t.live || (0 ≤ r && t.events == ev) }

/-- The timer fired, or was cancelled. -/
@[simp] def consume : KlConnectTimer := { armed := false, live := false, events := t.events + 1 }

/-- What `co_disarm_timers` leaves. -/
def off : KlConnectTimer := { t with armed := false }

theorem off_eq {t : KlConnectTimer} (h : t.armed = false) : t.off = t := by
  obtain ⟨⟩ := t
  cases h
  rfl

end KlConnectTimer

structure KlConnectOp where
  hooks : KlConnectOpHooks
  state : KlConnectOpState := .idle
  resolveInflight : Bool := false
  resolveCancelRequested : Bool := false
  attemptActive : Nat → Bool := fun _ => false
  attemptCancelRequested : Nat → Bool := fun _ => false
  pending : Nat := 0
  naddrs : Nat := 0
  nextIdx : Nat := 0
  lastError : Int := 0
  delay : KlConnectTimer := {}
  deadline : KlConnectTimer := {}
  inStart : Nat := 0
  inDispatch : Nat := 0
  terminal : Bool := false
  detached : Bool := false
  result : KlConnectResult := .success
  winFd : Int := -1
  error : Int := 0

namespace KlConnectOp

/-- `KL_CONNECT_MAX_ADDRS`. -/
def maxAddrs : Nat := 8

/-- `KL_INVALID_SOCKET`. -/
def invalidSocket : Int := -1

/-- `kl_connect_op_init`: `none` on a missing or unpaired hook. -/
def init (h : KlConnectOpHooks) : Option KlConnectOp :=
  if !h.startResolve || !h.startAttempt || !h.onDone then none
  else if !h.disposeFd then none
  else if h.armDelay && !h.cancelDelay then none
  else if h.armDeadline && !h.cancelDeadline then none
  else some { hooks := h }

/-! ## Frames -/

/-- A hook call in progress, with the locals its caller still needs. A hook that arms a
timer keeps the number of events of that timer before the call. A cancel request
remembers whether `co_terminal` made it. -/
inductive Frame where
  | armDeadline (ev : Nat)
  | startResolve
  | startAttempt (idx : Nat)
  | armDelay (ev : Nat)
  | cancelDelay (result : KlConnectResult) (fd error : Int)
  | cancelDeadline (result : KlConnectResult) (fd error : Int)
  | onDone (result : KlConnectResult) (fd error : Int)
  | cancelResolve (inTerminal : Bool)
  | cancelAttempt (idx : Nat) (inTerminal : Bool)
  | disposeFd (fd : Int)
  | onDetach
deriving DecidableEq, Repr

/-- What a hook returns: its result, and the platform error it writes. -/
structure Answer where
  r : Int := 0
  err : Int := 0
deriving DecidableEq, Repr

inductive Op where
  | start
  | onResolved (naddrs : Int)
  | onResolveFailed (error : Int)
  | onAttemptConnected (idx : Int) (fd : Int)
  | onAttemptFailed (idx : Int) (error : Int)
  | onDelay
  | onDeadline (error : Int)
  | cancel
deriving DecidableEq, Repr

/-- How a stretch of connect code ends. Entry points without a result return 0. -/
abbrev COut := Out KlConnectOp Frame Int

/-! ## Updates -/

variable (op : KlConnectOp) (error : Int)

@[simp] def detach : KlConnectOp := { op with state := .detached, detached := true }
@[simp] def enterDispatch : KlConnectOp := { op with inDispatch := op.inDispatch + 1 }
@[simp] def leaveDispatch : KlConnectOp := { op with inDispatch := op.inDispatch - 1 }
@[simp] def enterStart : KlConnectOp := { op with inStart := op.inStart + 1 }
@[simp] def leaveStart : KlConnectOp := { op with inStart := op.inStart - 1 }
@[simp] def requestAttempt (idx : Nat) : KlConnectOp :=
  { op with attemptCancelRequested := Function.update op.attemptCancelRequested idx true }
@[simp] def requestResolve : KlConnectOp := { op with resolveCancelRequested := true }
@[simp] def setDelay (t : KlConnectTimer) : KlConnectOp := { op with delay := t }
@[simp] def setDeadline (t : KlConnectTimer) : KlConnectOp := { op with deadline := t }
@[simp] def setError : KlConnectOp := { op with lastError := error }
@[simp] def retireResolve : KlConnectOp := { op with resolveInflight := false }
variable (result : KlConnectResult)

/-- The result is decided, and `co_terminal` is on the stack. -/
@[simp] def settle (fd error : Int) : KlConnectOp :=
  { op with
    terminal := true, state := .done, result := result, winFd := fd, error := error,
    inDispatch := op.inDispatch + 1 }
/-- The next attempt counts before `start_attempt` runs, and was not asked to cancel. -/
@[simp] def beginAttempt : KlConnectOp := { op with
    nextIdx := op.nextIdx + 1
    attemptActive := Function.update op.attemptActive op.nextIdx true
    attemptCancelRequested := Function.update op.attemptCancelRequested op.nextIdx false
    pending := op.pending + 1 }
/-- An attempt is over. -/
@[simp] def retireAttempt (idx : Nat) : KlConnectOp :=
  { op with attemptActive := Function.update op.attemptActive idx false, pending := op.pending - 1 }
/-- The phase that `kl_connect_op_start` enters. -/
@[simp] def beginResolving : KlConnectOp :=
  { op with state := .resolving, resolveCancelRequested := false }
/-- The resolve is outstanding before `start_resolve` runs. -/
@[simp] def beginResolve : KlConnectOp := { op with resolveInflight := true }
/-- The phase that `kl_connect_op_on_resolved` enters with `n` addresses. -/
@[simp] def beginConnecting (n : Nat) : KlConnectOp :=
  { op with resolveInflight := false, naddrs := n, nextIdx := 0, state := .connecting }

/-! ## Detachment and the terminal -/

/-- `co_finalize`, at the end of an entry point. -/
def finalize : COut :=
  if !op.terminal then .done op 0
  else if op.inStart ≠ 0 ∨ op.inDispatch ≠ 0 then .done op 0
  else if op.resolveInflight then .done op 0
  else if op.pending ≠ 0 then .done op 0
  else if op.delay.armed || op.deadline.armed then .done op 0
  else if op.detached then .done op 0
  else if op.hooks.onDetach then .call op.detach .onDetach
  else .done op.detach 0

/-- The attempt that the loop of `co_request_cancels` cancels next, from `i` on. -/
def nextCancel (i : Nat) : Option Nat :=
  (List.range maxAddrs).find? fun j =>
    i ≤ j && op.attemptActive j && op.hooks.cancelAttempt && !op.attemptCancelRequested j

/-- `co_request_cancels` after its loop; `co_terminal` then leaves its own frame. -/
def cancelsRequested : Bool → COut
  | true => op.leaveDispatch.leaveDispatch.finalize
  | false => op.leaveDispatch.finalize

/-- The loop of `co_request_cancels` from attempt `i` on. -/
def cancelAttempts (i : Nat) (inTerminal : Bool) : COut :=
  match op.nextCancel i with
  | some j => .call (op.requestAttempt j) (.cancelAttempt j inTerminal)
  | none => op.cancelsRequested inTerminal

/-- `co_request_cancels`. -/
def requestCancels (inTerminal : Bool) : COut :=
  if op.resolveInflight && op.hooks.cancelResolve && !op.resolveCancelRequested then
    .call op.enterDispatch.requestResolve (.cancelResolve inTerminal)
  else op.enterDispatch.cancelAttempts 0 inTerminal

/-- `co_terminal` from the disarming of the deadline on. -/
def disarmDeadline (fd error : Int) : COut :=
  if op.deadline.armed && op.hooks.cancelDeadline then
    .call op (.cancelDeadline result fd error)
  else .call (op.setDeadline op.deadline.off) (.onDone result fd error)

/-- `co_terminal` once the result is decided. -/
def disarmDelay (fd error : Int) : COut :=
  if op.delay.armed && op.hooks.cancelDelay then .call op (.cancelDelay result fd error)
  else (op.setDelay op.delay.off).disarmDeadline result fd error

/-- `co_terminal`, up to its first hook. -/
def coTerminal (fd error : Int) : COut :=
  if op.terminal then op.finalize
  else (op.settle result fd error).disarmDelay result fd error

/-- `co_dispose`, up to `dispose_fd`. -/
def dispose (fd : Int) : COut := .call op.enterDispatch (.disposeFd fd)

/-! ## The race -/

/-- `co_start_next`, up to the hook that starts the next attempt. -/
def startNext : COut :=
  if op.state = .connecting ∧ op.terminal = false ∧ op.nextIdx < op.naddrs then
    .call op.beginAttempt.enterStart (.startAttempt op.nextIdx)
  else if op.state = .connecting ∧ op.terminal = false ∧ op.pending = 0 then
    op.coTerminal .failed invalidSocket op.lastError
  else op.finalize

/-- `co_start_next` after `co_start_one` returned 0. -/
def attemptStarted : COut :=
  if op.hooks.armDelay = true ∧ op.state = .connecting ∧ op.terminal = false ∧
      op.nextIdx < op.naddrs ∧ op.delay.armed = false then
    .call (op.setDelay op.delay.mark).enterStart (.armDelay op.delay.events)
  else op.finalize

/-- `co_start_one` and `co_start_next`, after `start_attempt`. -/
def attemptReturned (idx : Nat) (a : Answer) : COut :=
  if !op.attemptActive idx then op.leaveStart.attemptStarted
  else if a.r < 0 then ((op.leaveStart.retireAttempt idx).setError a.err).startNext
  else op.leaveStart.attemptStarted

/-- `co_arm_delay` and `co_start_next`, after `arm_delay`. -/
def delayReturned (ev : Nat) (a : Answer) : COut :=
  if op.delay.armed && a.r < 0 then
    (op.leaveStart.setDelay (op.delay.armReturned ev a.r)).startNext
  else (op.leaveStart.setDelay (op.delay.armReturned ev a.r)).finalize

/-! ## Entry points -/

/-- `kl_connect_op_start` from the resolve on. -/
def resolve : COut := .call op.beginResolve.enterStart .startResolve

/-- `kl_connect_op_start`, up to its first hook. -/
def start : COut :=
  if op.state ≠ .idle then .done op (-1)
  else if op.hooks.armDeadline then
    .call (op.beginResolving.setDeadline op.deadline.mark).enterStart
      (.armDeadline op.deadline.events)
  else op.beginResolving.resolve

/-- `kl_connect_op_start` after `arm_deadline`. -/
def deadlineReturned (ev : Nat) (a : Answer) : COut :=
  if op.deadline.armed && a.r < 0 then
    (op.leaveStart.setDeadline (op.deadline.armReturned ev a.r)).coTerminal
      .failed invalidSocket a.err
  else if op.terminal then
    (op.leaveStart.setDeadline (op.deadline.armReturned ev a.r)).finalize
  else (op.leaveStart.setDeadline (op.deadline.armReturned ev a.r)).resolve

/-- `kl_connect_op_start` after `start_resolve`. -/
def resolveReturned (a : Answer) : COut :=
  if op.resolveInflight && a.r < 0 then
    op.leaveStart.retireResolve.coTerminal .failed invalidSocket op.lastError
  else op.leaveStart.finalize

/-- The number of addresses `kl_connect_op_on_resolved` goes on with. -/
def clampAddrs (naddrs : Int) : Nat := min naddrs.toNat maxAddrs

/-- `kl_connect_op_on_resolved`. -/
def onResolved (naddrs : Int) : COut :=
  if !op.resolveInflight then .done op 0
  else if op.terminal then op.retireResolve.finalize
  else if clampAddrs naddrs = 0 then
    (op.beginConnecting 0).coTerminal .failed invalidSocket op.lastError
  else (op.beginConnecting (clampAddrs naddrs)).startNext

/-- `kl_connect_op_on_resolve_failed`. -/
def onResolveFailed : COut :=
  if !op.resolveInflight then .done op 0
  else (op.retireResolve.setError error).coTerminal .failed invalidSocket error

/-- `kl_connect_op_on_attempt_connected`. -/
def onAttemptConnected (idx fd : Int) : COut :=
  if idx < 0 ∨ (maxAddrs : Int) ≤ idx then op.dispose fd
  else if !op.attemptActive idx.toNat then op.dispose fd
  else if op.terminal then (op.retireAttempt idx.toNat).dispose fd
  else (op.retireAttempt idx.toNat).coTerminal .success fd 0

/-- `kl_connect_op_on_attempt_failed` once the attempt is retired. -/
def attemptFailed : COut :=
  if op.terminal then op.finalize
  else if op.nextIdx < op.naddrs then op.startNext
  else if op.pending = 0 then op.coTerminal .failed invalidSocket error
  else op.finalize

/-- `kl_connect_op_on_attempt_failed`. -/
def onAttemptFailed (idx error : Int) : COut :=
  if idx < 0 ∨ (maxAddrs : Int) ≤ idx then .done op 0
  else if !op.attemptActive idx.toNat then .done op 0
  else ((op.retireAttempt idx.toNat).setError error).attemptFailed error

/-- `kl_connect_op_on_delay`. A stale firing only ends the timer. -/
def onDelay : COut :=
  if !op.delay.armed then .done (op.setDelay op.delay.consume) 0
  else if op.state = .connecting ∧ op.terminal = false then
    (op.setDelay op.delay.consume).startNext
  else (op.setDelay op.delay.consume).finalize

/-- `kl_connect_op_on_deadline`. -/
def onDeadline : COut :=
  if !op.deadline.armed then .done (op.setDeadline op.deadline.consume) 0
  else (op.setDeadline op.deadline.consume).coTerminal .failed invalidSocket error

/-- `kl_connect_op_cancel`. -/
def cancel : COut :=
  if op.detached then .done op 0
  else if !op.terminal then op.coTerminal .cancelled invalidSocket op.lastError
  else op.requestCancels false

/-! ## The machine -/

def enter : Op → KlConnectOp → COut
  | .start, op => op.start
  | .onResolved n, op => op.onResolved n
  | .onResolveFailed e, op => op.onResolveFailed e
  | .onAttemptConnected idx fd, op => op.onAttemptConnected idx fd
  | .onAttemptFailed idx e, op => op.onAttemptFailed idx e
  | .onDelay, op => op.onDelay
  | .onDeadline e, op => op.onDeadline e
  | .cancel, op => op.cancel

/-- The code after a hook that answered `a`. -/
def afterHook : Frame → Answer → KlConnectOp → COut
  | .armDeadline ev, a, op => op.deadlineReturned ev a
  | .startResolve, a, op => op.resolveReturned a
  | .startAttempt idx, a, op => op.attemptReturned idx a
  | .armDelay ev, a, op => op.delayReturned ev a
  | .cancelDelay result fd error, _, op =>
    (op.setDelay op.delay.consume).disarmDeadline result fd error
  | .cancelDeadline result fd error, _, op =>
    .call (op.setDeadline op.deadline.consume) (.onDone result fd error)
  | .onDone _ _ _, _, op => op.requestCancels true
  | .cancelResolve inTerminal, _, op => op.cancelAttempts 0 inTerminal
  | .cancelAttempt idx inTerminal, _, op => op.cancelAttempts (idx + 1) inTerminal
  | .disposeFd _, _, op => op.leaveDispatch.finalize
  | .onDetach, _, op => .done op 0

/-- The connect operation as a machine that hands control to its hooks. -/
def machine : Machine KlConnectOp Op Frame Answer Int where
  enter := enter
  resume := afterHook

abbrev CStep := Step KlConnectOp Op Frame Answer Int
abbrev CConfig := Config KlConnectOp Op Frame Answer Int
abbrev CAct := Act Op Answer

end KlConnectOp
