-- SUMMARY: The datagram send machine (src/datagram_send.c).
import Keel.Datagram.Slots
import Keel.Queue.Ring
import Keel.Reentrant.Machine

/-!
# Datagram send

Each function of src/datagram_send.c, cut at its hook calls. A stretch that would read
an empty ring position ends in the frame `fault`, which never returns: in the source
that read follows a null pointer.

Beside the fields of the source the state keeps a record of every datagram. `accepted`
lists what was accepted, and a datagram is known by its position in that list. `handed`
lists those the provider took, `refused` those a provider call reported as refused or
failed, `droppedIds` those counted by `dropped`, `discarded` those taken off the queue by
a close. `blocked` says that a call was refused with WOULD_BLOCK and neither on_writable
nor a discard came since, `retired` that a datagram was retired since that refusal,
`aborted` that the queue was discarded after closing had begun. The machine reads none
of them.
-/

open Reentrant

/-- Result of one provider submit. -/
inductive KlDgramSubmitResult where
  | done
  | inflight
  | wouldblock
  | error
  | unsupported
  | dropped
deriving DecidableEq, Repr

/-- Result of one batch submit. -/
inductive KlDgramBatchResult where
  | sent
  | wouldblock
  | error
deriving DecidableEq, Repr

inductive KlDatagramSendStatus where
  | accepted
  | wouldBlock
  | tooLarge
  | unsupported
  | closed
  | error
deriving DecidableEq, Repr

/-- How an asynchronous send ended, `KL_DGRAM_SEND_*`. -/
inductive KlDgramSendOutcome where
  | failed
  | ok
  | dropped
deriving DecidableEq, Repr

/-- One outbound datagram; an absent address is `unspec`. -/
structure KlDatagramMessage where
  data : Option (List UInt8) := none
  len : Nat := 0
  peer : KlSockAddr := .unspec
  localAddr : KlSockAddr := .unspec
  tos : Int := -1
  flags : KlDgramFlags := {}
deriving DecidableEq, Repr

/-- The arguments of `kl_dgram_send_enqueue_gso`. A null buffer, which only an empty group
has, is the empty one. -/
structure GsoRequest where
  buf : List UInt8 := []
  total : Nat := 0
  seg : Nat
  nseg : Nat
  peer : KlSockAddr := .unspec
  tos : Int := -1
  fallback : Bool := false
  owner : Nat := 0
deriving DecidableEq, Repr

/-- What a provider is given for one datagram. -/
structure KlDgramTxDesc where
  data : List UInt8 := []
  dest : KlSockAddr := .unspec
  src : KlSockAddr := .unspec
  tos : Int := -1
deriving DecidableEq, Repr

/-- `KL_DGRAM_CAP_SOURCE_PIN`, `KL_DGRAM_CAP_TOS` and `KL_DGRAM_CAP_CONNECTED`. -/
structure KlDgramCaps where
  sourcePin : Bool := false
  tos : Bool := false
  connected : Bool := false
deriving DecidableEq, Repr

structure KlDgramSend where
  slots : KlDgramSlots
  ring : RingBuffer Nat
  inflightN : Nat := 0
  byteBudget : Nat := 0
  bytesUsed : Nat := 0
  completion : Bool
  caps : KlDgramCaps := {}
  connected : Bool := false
  onWritable : Bool := false
  onDrain : Bool := false
  onDrop : Bool := false
  submitGso : Bool := false
  err : Bool := false
  closing : Bool := false
  full : Bool := false
  inDispatch : Nat := 0
  pendWritable : Bool := false
  pendDrain : Bool := false
  inSubmit : Bool := false
  submitRetired : Bool := false
  directDropped : Bool := false
  dropped : Nat := 0
  accepted : List KlDgramTxDesc := []
  /-- The datagram submitted last by the pump. -/
  flight : Nat := 0
  handed : List Nat := []
  refused : List Nat := []
  droppedIds : List Nat := []
  discarded : List Nat := []
  blocked : Bool := false
  retired : Bool := false
  aborted : Bool := false

namespace KlDgramSlot

/-- What `send_submit_slot` passes for the slot. -/
def desc (slot : KlDgramSlot) : KlDgramTxDesc where
  data := (slot.gsoExt.getD slot.data).take slot.len
  dest := slot.peer
  src := slot.localAddr
  tos := slot.tos

/-- The head of a group that is to go out as a whole. -/
def gsoWhole (slot : KlDgramSlot) : Bool := slot.gsoHead && !slot.gsoFallback

end KlDgramSlot

def KlDatagramMessage.desc (m : KlDatagramMessage) : KlDgramTxDesc where
  data := (m.data.getD []).take m.len
  dest := m.peer
  src := m.localAddr
  tos := m.tos

namespace KlDgramSend

/-- `kl_dgram_send_init`, with the callbacks its owner installs. -/
def init (slots : KlDgramSlots) (completion : Bool) (caps : KlDgramCaps) (byteBudget : Nat)
    (onWritable onDrain onDrop submitGso : Bool) : Option KlDgramSend :=
  if slots.slotCount = 0 then none
  else some {
    slots := slots, ring := { cap := slots.slotCount }, byteBudget := byteBudget
    completion := completion, caps := caps, onWritable := onWritable, onDrain := onDrain
    onDrop := onDrop, submitGso := submitGso }

/-! ## Frames -/

/-- What a public call returns. -/
inductive Ret where
  | status (v : KlDatagramSendStatus)
  | code (r : Int)
deriving DecidableEq, Repr

/-- A datagram as a provider is given it. -/
structure Item where
  id : Nat
  desc : KlDgramTxDesc
deriving DecidableEq, Repr

/-- The arguments of `submit_gso`. -/
structure GsoCall where
  owner : Option Nat
  buf : List UInt8
  total : Nat
  seg : Nat
  peer : KlSockAddr
  tos : Int
deriving DecidableEq, Repr

/-- Who called `send_pump`. -/
inductive PumpK where
  | send
  | complete
  | flush
deriving DecidableEq, Repr

/-- Which loop submits. -/
inductive LoopK where
  | pump (k : PumpK)
  | batch (cap : Nat)
deriving DecidableEq, Repr

/-- Where a datagram was dropped. In a group, `last` says that it was the last segment,
`rest` which ones are to follow. -/
inductive DropK where
  | pump (k : PumpK)
  | batch (cap : Nat)
  | group (last : Bool) (rest : List Nat) (k : LoopK)
  | complete
deriving DecidableEq, Repr

/-- A hook call in progress. -/
inductive Frame where
  | direct (m : KlDatagramMessage)
  | submit (x : Item) (k : PumpK)
  | gso (i : Nat) (g : GsoCall) (ids : List Nat) (k : LoopK)
  | batch (xs : List Item) (cap : Nat)
  | isolate (x : Item) (cap : Nat)
  | drop (k : DropK)
  | writable (ret : Ret)
  | drain (ret : Ret)
  | fault
deriving DecidableEq, Repr

/-- What a hook returns. -/
structure Answer where
  r : KlDgramSubmitResult := .done
  br : KlDgramBatchResult := .sent
  sent : Int := 0
deriving DecidableEq, Repr

inductive Op where
  | send (m : KlDatagramMessage)
  | enqueue (m : KlDatagramMessage)
  | enqueueGso (g : GsoRequest)
  | flush
  | flushBatch (cap : Nat)
  | onComplete (outcome : KlDgramSendOutcome)
  | discardQueued
  | setClosing
  | setConnected (on : Bool)
deriving DecidableEq, Repr

/-- How a stretch of send code ends. Entry points without a result return 0. -/
abbrev SOut := Out KlDgramSend Frame Ret

/-! ## The queue -/

variable (s : KlDgramSend)

/-- The number of occupied slots. -/
def count : Nat := s.ring.count

/-- The occupied slots, oldest first. -/
def entries : List KlDgramSlot := s.ring.toList.map s.slots.out

/-- The group at the start of a queue: up to the slot marked as its last one. -/
def groupAt : List KlDgramSlot → List KlDgramSlot
  | [] => []
  | e :: es => if e.gsoLast then [e] else e :: groupAt es

/-- The datagrams of the group at the head of the queue. -/
def groupIds : List Nat := (groupAt s.entries).map (·.id)

variable (slot : KlDgramSlot)

def item : Item := ⟨slot.id, slot.desc⟩

/-- A null ring position is read. -/
def fault : SOut := .call s .fault

/-! ## Updates -/

@[simp] def enterDispatch : KlDgramSend := { s with inDispatch := s.inDispatch + 1 }
@[simp] def nestedLeave : KlDgramSend := { s with inDispatch := s.inDispatch - 1 }
@[simp] def takeWritable : KlDgramSend := { s with pendWritable := false }
/-- `on_writable` is about to be called. -/
@[simp] def fireWritable : KlDgramSend := { s with pendWritable := false, blocked := false }
@[simp] def lastLeave : KlDgramSend := { s with pendDrain := false, inDispatch := 0 }
@[simp] def setErr : KlDgramSend := { s with err := true }
@[simp] def arm (id : Nat) : KlDgramSend :=
  { s with inflightN := 1, inSubmit := true, submitRetired := false, flight := id }
@[simp] def endSubmit : KlDgramSend := { s with inSubmit := false }
@[simp] def unarm : KlDgramSend := { s with inflightN := 0 }
/-- An inline completion tells the pump. -/
@[simp] def markRetired : KlDgramSend := { s with submitRetired := s.submitRetired || s.inSubmit }
@[simp] def hand (ids : List Nat) : KlDgramSend := { s with handed := s.handed ++ ids }
@[simp] def refuse (ids : List Nat) : KlDgramSend := { s with refused := s.refused ++ ids }
@[simp] def countDrop (id : Nat) : KlDgramSend :=
  { s with dropped := s.dropped + 1, droppedIds := s.droppedIds ++ [id] }
@[simp] def setDirectDropped (b : Bool) : KlDgramSend := { s with directDropped := b }
/-- A refusal with WOULD_BLOCK. -/
@[simp] def block : KlDgramSend :=
  { s with full := true, blocked := true, retired := false }
variable (m : KlDatagramMessage)

/-- A datagram sent without a slot. -/
@[simp] def acceptDirect : KlDgramSend :=
  { s with accepted := s.accepted ++ [m.desc], handed := s.handed ++ [s.accepted.length] }
@[simp] def close : KlDgramSend := { s with closing := true }
@[simp] def connect (on : Bool) : KlDgramSend := { s with connected := on }

variable (i : Nat)

/-- `send_retire_head`, of the slot `i` at the head. -/
def popHead (wasInflight : Bool) : KlDgramSend := { s with
    ring := s.ring.popHead
    slots := s.slots.release i
    inflightN := if wasInflight then s.inflightN - 1 else s.inflightN
    bytesUsed := s.bytesUsed - (s.slots.out i).len
    full := false
    pendWritable := s.pendWritable || s.full
    pendDrain := s.pendDrain || s.count - 1 == 0
    retired := true }

/-- `send_retire_head`: `none` on a null head. -/
def retireHead (wasInflight : Bool) : Option KlDgramSend :=
  (s.ring.get 0).map (s.popHead · wasInflight)

/-- One round of the loop of `kl_dgram_send_discard_queued`, for the slot `i` at the tail. -/
def popTail : KlDgramSend := { s with
    ring := s.ring.popTail
    slots := s.slots.release i
    bytesUsed := s.bytesUsed - (s.slots.out i).len
    discarded := s.discarded ++ [(s.slots.out i).id] }

/-- The loop of `kl_dgram_send_discard_queued`, for at most `n` rounds. -/
def discardLoop : Nat → KlDgramSend → Option KlDgramSend
  | 0, s => some s
  | n + 1, s =>
    if s.inflightN < s.count then
      match s.ring.get (s.count - 1) with
      | none => none
      | some i => discardLoop n (s.popTail i)
    else some s

/-- What `kl_dgram_send_discard_queued` does last. -/
@[simp] def discardDone : KlDgramSend :=
  { s with full := false, blocked := false, aborted := s.aborted || s.closing }

/-- `kl_dgram_send_discard_queued`: each round takes one slot off the queue. -/
def discardQueued : Option KlDgramSend := (discardLoop s.count s).map discardDone

/-- `gso_mode = 1` for the slot `i`. -/
def setFallback : KlDgramSend :=
  { s with slots := s.slots.write i { s.slots.out i with gsoFallback := true } }

/-! ## Deferred callbacks -/

/-- `dispatch_leave` from the drain callback on. -/
def drainTail (ret : Ret) : SOut :=
  if s.pendDrain && s.count == 0 && s.onDrain then .call s.lastLeave (.drain ret)
  else .done s.lastLeave ret

/-- The loop of `dispatch_leave`. -/
def leaveLoop (ret : Ret) : SOut :=
  if s.pendWritable then
    if s.onWritable then .call s.fireWritable (.writable ret) else s.takeWritable.drainTail ret
  else s.drainTail ret

/-- `dispatch_leave`. -/
def dispatchLeave (ret : Ret) : SOut :=
  if 1 < s.inDispatch then .done s.nestedLeave ret else s.leaveLoop ret

/-- 0, or -1 once the sticky error is set. -/
def code : Ret := .code (if s.err then -1 else 0)

/-- What the caller of `send_pump` returns. -/
def PumpK.ret : PumpK → Ret
  | .send => .status .accepted
  | .complete | .flush => s.code

/-- After `send_pump`. -/
def pumpDone (k : PumpK) : SOut := s.dispatchLeave (k.ret s)

/-- After the loop of `kl_dgram_send_flush_batch`. -/
def batchDone : SOut := s.dispatchLeave s.code

/-! ## The loops -/

/-- The arguments of `submit_gso` for the group headed by `slot`. -/
def gsoCall : GsoCall where
  owner := slot.gsoOwner
  buf := slot.gsoExt.getD []
  total := slot.gsoTotal
  seg := slot.gsoSeg
  peer := slot.peer
  tos := slot.tos

/-- `send_gso_head`, up to `submit_gso`, or else `next`, for the slot `i` at the head. -/
def gsoOr (k : LoopK) (next : SOut) : SOut :=
  if (s.slots.out i).gsoWhole && s.submitGso then
    .call s (.gso i (gsoCall (s.slots.out i)) s.groupIds k)
  else next

/-- The loop of `send_pump`, up to its next hook. -/
def pumpLoop (k : PumpK) : SOut :=
  if s.inflightN = 0 ∧ 0 < s.count then
    match s.ring.get 0 with
    | none => s.fault
    | some i => s.gsoOr i (.pump k)
        (.call (s.arm (s.slots.out i).id) (.submit (item (s.slots.out i)) k))
  else s.pumpDone k

/-- `send_pump`. -/
def pump (k : PumpK) : SOut := if s.err then s.pumpDone k else s.pumpLoop k

/-- The head-run that a batch stages: it stops before the next group that goes out as a
whole. -/
def headRun : List KlDgramSlot → List KlDgramSlot
  | [] => []
  | e :: es => e :: es.takeWhile (!·.gsoWhole)

/-- The loop of `kl_dgram_send_flush_batch`, up to its next hook. -/
def batchLoop (cap : Nat) : SOut :=
  if !s.err && decide (0 < s.count) then
    match s.ring.get 0 with
    | none => s.fault
    | some i => s.gsoOr i (.batch cap) <| match (List.range (min s.count cap)).mapM s.ring.get with
      | none => s.fault
      | some is => .call s (.batch ((headRun (is.map s.slots.out)).map item) cap)
  else s.batchDone

def loop : LoopK → SOut
  | .pump k => s.pumpLoop k
  | .batch cap => s.batchLoop cap

/-- The loop stops with its datagrams retained. -/
def loopDone : LoopK → SOut
  | .pump k => s.pumpDone k
  | .batch _ => s.batchDone

/-! ## Drops -/

/-- `send_retire_gso_group` with `send_retire_head`, for at most `n` slots. -/
def retireGroup : Nat → KlDgramSend → Option KlDgramSend
  | 0, _ => none
  | n + 1, s =>
    match s.ring.get 0 with
    | none => none
    | some i =>
      if (s.slots.out i).gsoLast || (s.popHead i false).count == 0 then some (s.popHead i false)
      else retireGroup n (s.popHead i false)

/-- `send_retire_gso_group` with `send_drop_head`, for at most `n` slots. -/
def dropGroup : Nat → List Nat → LoopK → KlDgramSend → SOut
  | 0, _, _, s => s.fault
  | n + 1, ids, k, s =>
    match s.ring.get 0 with
    | none => s.fault
    | some i =>
      if s.onDrop then
        .call ((s.popHead i false).countDrop (s.slots.out i).id)
          (.drop (.group (s.slots.out i).gsoLast ids.tail k))
      else if (s.slots.out i).gsoLast || (s.popHead i false).count == 0 then
        ((s.popHead i false).countDrop (s.slots.out i).id).loop k
      else dropGroup n ids.tail k ((s.popHead i false).countDrop (s.slots.out i).id)

/-- `kl_dgram_send_on_complete` from the pump on. -/
def completeTail : SOut := if !s.err && !s.inSubmit then s.pump .complete else s.pumpDone .complete

/-- After `on_drop`. -/
def dropReturned : DropK → SOut
  | .pump k => s.pumpLoop k
  | .batch cap => s.batchLoop cap
  | .group last rest k =>
    if last || s.count == 0 then s.loop k else dropGroup s.count rest k s
  | .complete => s.completeTail

/-- `on_drop`, where it is installed. -/
def reportDrop (k : DropK) : SOut := if s.onDrop then .call s (.drop k) else s.dropReturned k

/-- `send_drop_head`. -/
def dropHead (k : DropK) : SOut :=
  match s.ring.get 0 with
  | none => s.fault
  | some i => ((s.popHead i false).countDrop (s.slots.out i).id).reportDrop k

/-! ## After a submission -/

/-- The head is retired, and the loop goes on. -/
def retireThen (next : KlDgramSend → SOut) : SOut :=
  match s.retireHead false with
  | none => s.fault
  | some s' => next s'

/-- The head failed: dropped if it came from a batch, else the error sticks. -/
def failHead (x : Item) (k : DropK) (stick : KlDgramSend → SOut) : SOut :=
  match s.ring.get 0 with
  | none => s.fault
  | some i =>
    if (s.slots.out i).recoverable then (s.refuse [x.id]).dropHead k else stick s.setErr

/-- The loop of `send_pump` after `submit`, when no inline completion retired the head. -/
def submitted (x : Item) (k : PumpK) : KlDgramSubmitResult → SOut
  | .inflight => s.pumpDone k
  | .done => (s.hand [x.id]).unarm.retireThen (·.pumpLoop k)
  | .wouldblock => s.unarm.pumpDone k
  | .dropped => (s.refuse [x.id]).unarm.dropHead (.pump k)
  | .error | .unsupported => s.unarm.failHead x (.pump k) (·.pumpDone k)

/-- The loop of `send_pump` after `submit`. -/
def submitReturned (x : Item) (k : PumpK) (r : KlDgramSubmitResult) : SOut :=
  if s.submitRetired then
    if r = .error then s.endSubmit.setErr.pumpDone k else s.endSubmit.pumpLoop k
  else s.endSubmit.submitted x k r

/-- `send_gso_head` after `submit_gso`, and what its caller does next. -/
def gsoReturned (ids : List Nat) (k : LoopK) :
    KlDgramSubmitResult → SOut
  | .done =>
    match retireGroup s.count (s.hand ids) with
    | none => s.fault
    | some s' => s'.loop k
  | .wouldblock => s.loopDone k
  | .unsupported => (s.setFallback i).loop k
  | .error | .inflight | .dropped => dropGroup s.count ids k (s.refuse ids)

/-- The reported prefix of a batch of `k`. -/
def sentPrefix (sent : Int) (k : Nat) : Nat := min sent.toNat k

/-- The head is retired `n` times. -/
def retireHeads : Nat → KlDgramSend → Option KlDgramSend
  | 0, s => some s
  | n + 1, s => (s.retireHead false).bind (retireHeads n)

/-- The loop of `kl_dgram_send_flush_batch` after `submit_batch`. -/
def batchReturned (xs : List Item) (cap : Nat) (a : Answer) : SOut :=
  match a.br with
  | .sent =>
    match retireHeads (sentPrefix a.sent xs.length)
        (s.hand ((xs.take (sentPrefix a.sent xs.length)).map (·.id))) with
    | none => s.fault
    | some s' => if sentPrefix a.sent xs.length < xs.length then s'.batchDone else s'.batchLoop cap
  | .wouldblock => s.batchDone
  | .error =>
    match s.ring.get 0 with
    | none => s.fault
    | some i => .call s (.isolate (item (s.slots.out i)) cap)

/-- The loop of `kl_dgram_send_flush_batch` after the head was submitted alone. -/
def isolateReturned (x : Item) (cap : Nat) : KlDgramSubmitResult → SOut
  | .done => (s.hand [x.id]).retireThen (·.batchLoop cap)
  | .wouldblock => s.batchDone
  | .dropped => (s.refuse [x.id]).dropHead (.batch cap)
  | .error | .inflight | .unsupported => s.failHead x (.batch cap) (·.batchLoop cap)

/-! ## Admission -/

/-- A peerless send needs the capability and an actual connect. -/
def peerless (peer : KlSockAddr) : Bool := peer == .unspec && !(s.caps.connected && s.connected)

/-- `send_validate`. -/
def validate : KlDatagramSendStatus :=
  if s.err then .error
  else if s.closing then .closed
  else if 0 < m.len ∧ m.data = none then .error
  else if m.localAddr ≠ .unspec ∧ s.caps.sourcePin = false then .unsupported
  else if 0 ≤ m.tos ∧ s.caps.tos = false then .unsupported
  else if s.peerless m.peer then .unsupported
  else if s.slots.outCap < m.len then .tooLarge
  else .accepted

/-- A slot of the pool filled by `send_admit`. -/
def filled (recoverable : Bool) (id : Nat) :
    KlDgramSlot :=
  { slot with
    data := (m.data.getD []).take m.len, len := m.len, tos := m.tos, flags := m.flags
    recoverable := recoverable, peer := m.peer, localAddr := m.localAddr, id := id }

/-- The slot `i`, acquired from the pool that is now `slots`, joins the queue as `slot`. -/
def pushSlot (slots : KlDgramSlots) (slot : KlDgramSlot) : KlDgramSend :=
  { s with
    slots := slots.write i slot
    ring := s.ring.push i
    bytesUsed := s.bytesUsed + slot.len
    accepted := s.accepted ++ [slot.desc] }

/-- The last slot may have been taken. -/
@[simp] def noteFull : KlDgramSend := { s with full := s.full || s.slots.freeCount == 0 }

/-- `send_admit`. -/
def sendAdmit (recoverable : Bool) :
    KlDatagramSendStatus × KlDgramSend :=
  if 0 < s.byteBudget ∧ s.byteBudget < m.len then (.tooLarge, s)
  else if 0 < s.byteBudget ∧ s.byteBudget - s.bytesUsed < m.len then (.wouldBlock, s.block)
  else
    match s.slots.acquire with
    | none => (.wouldBlock, s.block)
    | some (i, slots) =>
      (.accepted, (s.pushSlot i slots
        (filled (slots.out i) m recoverable s.accepted.length)).noteFull)

variable (g : GsoRequest)

/-- The length of segment `j` of a group. -/
def segLen (j : Nat) : Nat := min (g.total - j * g.seg) g.seg

/-- A slot of the pool filled as segment `j` of a group. -/
def segment (j id : Nat) : KlDgramSlot := { slot with
    gsoExt := some (g.buf.drop (j * g.seg)), len := segLen g j, tos := g.tos
    recoverable := true, gsoOwner := some g.owner, peer := g.peer, id := id
    gsoHead := j == 0, gsoFallback := j == 0 && g.fallback
    gsoTotal := if j = 0 then g.total else slot.gsoTotal
    gsoSeg := if j = 0 then g.seg else slot.gsoSeg
    gsoLast := j == g.nseg - 1 }

/-- One round of the loop of `kl_dgram_send_enqueue_gso`. The free slots were counted
before. -/
def pushSegment (s : KlDgramSend) (j : Nat) : KlDgramSend :=
  match s.slots.acquire with
  | none => s
  | some (i, slots) => s.pushSlot i slots (segment (slots.out i) g j s.accepted.length)

/-- The loop of `kl_dgram_send_enqueue_gso`. -/
def pushGroup : KlDgramSend := (List.range g.nseg).foldl (pushSegment g) s

/-- `kl_dgram_send_enqueue_gso`. -/
def admitGso : KlDatagramSendStatus × KlDgramSend :=
  if g.nseg = 0 ∨ g.seg = 0 then (.error, s)
  else if s.err then (.error, s)
  else if s.closing then (.closed, s)
  else if s.peerless g.peer then (.unsupported, s)
  else if s.ring.cap < g.nseg then (.tooLarge, s)
  else if 0 < s.byteBudget ∧ s.byteBudget < g.total then (.tooLarge, s)
  else if s.slots.freeCount < g.nseg then (.wouldBlock, s.block)
  else if 0 < s.byteBudget ∧ s.byteBudget - s.bytesUsed < g.total then (.wouldBlock, s.block)
  else (.accepted, (s.pushGroup g).noteFull)

/-! ## Entry points -/

/-- The end of `kl_dgram_send`: queue the datagram and pump. -/
def queueSend : SOut :=
  match s.sendAdmit m false with
  | (.accepted, s') => s'.enterDispatch.pump .send
  | (v, s') => .done s' (.status v)

/-- `kl_dgram_send`. -/
def send : SOut :=
  if s.validate m ≠ .accepted then .done (s.setDirectDropped false) (.status (s.validate m))
  else if !s.completion && s.count == 0 then .call (s.setDirectDropped false) (.direct m)
  else (s.setDirectDropped false).queueSend m

/-- `kl_dgram_send` after the direct submit. -/
def directReturned : KlDgramSubmitResult → SOut
  | .done => .done (s.acceptDirect m) (.status .accepted)
  | .error => .done s.setErr (.status .error)
  | .dropped => .done (s.setDirectDropped true) (.status .error)
  | .inflight | .wouldblock | .unsupported =>
    if s.err then .done s (.status .error)
    else if s.closing then .done s (.status .closed)
    else s.queueSend m

/-- `kl_dgram_send_enqueue`. -/
def enqueue : SOut :=
  if s.validate m ≠ .accepted then .done s (.status (s.validate m))
  else .done (s.sendAdmit m true).2 (.status (s.sendAdmit m true).1)

/-- `kl_dgram_send_enqueue_gso`. -/
def enqueueGso : SOut := .done (s.admitGso g).2 (.status (s.admitGso g).1)

/-- `kl_dgram_send_flush`. -/
def flush : SOut := s.enterDispatch.pump .flush

/-- `kl_dgram_send_flush_batch`. -/
def flushBatch (cap : Nat) : SOut :=
  if cap = 0 then .done s (.code (-1))
  else if s.completion || s.inflightN != 0 then .done s (.code (-1))
  else s.enterDispatch.batchLoop cap

/-- `kl_dgram_send_on_complete`, once the head in flight is retired; `slot` is what it was. -/
def completed : KlDgramSendOutcome → SOut
  | .ok => (s.hand [s.flight]).completeTail
  | .dropped => ((s.refuse [s.flight]).countDrop slot.id).reportDrop .complete
  | .failed =>
    if slot.recoverable then ((s.refuse [s.flight]).countDrop slot.id).reportDrop .complete
    else (s.refuse [s.flight]).setErr.completeTail

/-- `kl_dgram_send_on_complete`. -/
def onComplete (outcome : KlDgramSendOutcome) : SOut :=
  if s.inflightN = 0 then .done s s.code
  else
    match s.ring.get 0 with
    | none => s.enterDispatch.markRetired.fault
    | some i => (s.enterDispatch.markRetired.popHead i true).completed (s.slots.out i) outcome

/-- `kl_dgram_send_discard_queued` as an operation. -/
def discard : SOut :=
  match s.discardQueued with
  | none => s.fault
  | some s' => .done s' (.code 0)

/-! ## The machine -/

def enter : Op → KlDgramSend → SOut
  | .send m, s => s.send m
  | .enqueue m, s => s.enqueue m
  | .enqueueGso g, s => s.enqueueGso g
  | .flush, s => s.flush
  | .flushBatch cap, s => s.flushBatch cap
  | .onComplete outcome, s => s.onComplete outcome
  | .discardQueued, s => s.discard
  | .setClosing, s => .done s.close (.code 0)
  | .setConnected on, s => .done (s.connect on) (.code 0)

/-- The code after a hook that answered `a`. -/
def afterHook : Frame → Answer → KlDgramSend → SOut
  | .direct m, a, s => s.directReturned m a.r
  | .submit x k, a, s => s.submitReturned x k a.r
  | .gso i _ ids k, a, s => s.gsoReturned i ids k a.r
  | .batch xs cap, a, s => s.batchReturned xs cap a
  | .isolate x cap, a, s => s.isolateReturned x cap a.r
  | .drop k, _, s => s.dropReturned k
  | .writable ret, _, s => s.leaveLoop ret
  | .drain ret, _, s => .done s ret
  | .fault, _, s => s.fault

/-- The send machine as one that hands control to its hooks. -/
def machine : Machine KlDgramSend Op Frame Answer Ret where
  enter := enter
  resume := afterHook

abbrev SStep := Step KlDgramSend Op Frame Answer Ret
abbrev SConfig := Config KlDgramSend Op Frame Answer Ret
abbrev SAct := Act Op Answer

end KlDgramSend
