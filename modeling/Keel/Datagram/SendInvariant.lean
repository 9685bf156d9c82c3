-- SUMMARY: What the send machine keeps between two hook calls.
import Keel.Datagram.Queue
import Keel.Queue.Ledger

/-!
# Invariants of the send machine

Some of what the machine keeps is kept only by runs that meet a condition. A `Scope`
says which of the conditions a run meets, so that one pass over the functions of the
machine serves all of them. `Kept` is about the state alone, `Stacked` about the frames
that are inside a hook.
-/

open Reentrant List

namespace KlDgramSend

/-! ## Frames -/

/-- `in_dispatch` counts it. -/
def Frame.dispatching : Frame → Bool
  | .direct _ | .drain _ => false
  | _ => true

/-- Only a readiness machine calls it. -/
def Frame.readiness : Frame → Bool
  | .direct _ | .gso _ _ _ _ | .batch _ _ | .isolate _ _ => true
  | .drop (.batch _) | .drop (.group _ _ _) => true
  | _ => false

/-- It hands datagrams to the provider. -/
def Frame.provider : Frame → Bool
  | .direct _ | .submit _ _ | .gso _ _ _ _ | .batch _ _ | .isolate _ _ => true
  | _ => false

/-- A batch has room for a datagram. -/
def LoopK.sound : LoopK → Bool
  | .pump _ => true
  | .batch cap => decide (0 < cap)

/-- Not a null read, and a submission of at least one datagram. -/
def Frame.sound : Frame → Bool
  | .fault => false
  | .gso _ _ ids k => !ids.isEmpty && k.sound
  | .batch xs cap => !xs.isEmpty && decide (0 < cap)
  | .isolate _ cap | .drop (.batch cap) => decide (0 < cap)
  | .drop (.group _ _ k) => k.sound
  | _ => true

/-- Not a refusal. -/
def Ret.granted : Ret → Bool
  | .status v => v == .accepted
  | .code _ => true

/-- The call it belongs to will not be refused any more. -/
def Frame.granted : Frame → Bool
  | .writable ret | .drain ret => ret.granted
  | _ => true

/-- A submission of the pump is in progress. -/
def Pending : List Frame → Prop
  | .submit _ _ :: _ | .fault :: _ => True
  | _ => False

def dispatches (st : List Frame) : Nat := st.countP Frame.dispatching

theorem dispatches_cons (f : Frame) (st : List Frame) :
    dispatches (f :: st) = f.dispatching.toNat + dispatches st := by
  rw [dispatches, countP_cons, Nat.add_comm]
  cases f.dispatching <;> rfl

variable {f : Frame} {es : List KlDgramSlot}

theorem dispatches_cons_of (h : f.dispatching = true) (st : List Frame) :
    dispatches (f :: st) = dispatches st + 1 := by
  rw [dispatches_cons, h, Nat.add_comm]
  rfl

/-- on_writable is called by the outermost function only. -/
def Outer : List Frame → Prop
  | [] => True
  | .writable _ :: st => dispatches st = 0 ∧ Outer st
  | _ :: st => Outer st

theorem dispatches_pos {st : List Frame} (h : Pending st) : 0 < dispatches st := by
  cases st with
  | nil => cases h
  | cons f st =>
    cases f with
    | submit _ _ | fault =>
      rw [dispatches_cons_of rfl]
      omega
    | direct _ | gso _ _ _ _ | batch _ _ | isolate _ _ | drop _ | writable _ | drain _ => cases h

/-! ## GSO groups -/

/-- Segment `j` of the group that `submit_gso` is given. -/
def GsoCall.slice (g : GsoCall) (j : Nat) : KlDgramTxDesc where
  data := ((g.buf.take g.total).drop (j * g.seg)).take g.seg
  dest := g.peer
  tos := g.tos

/-- A group that is to go out as a whole is complete, and its segments are the slices of
its buffer. -/
def GroupsOk : List KlDgramSlot → Prop
  | [] => True
  | e :: es => (e.gsoWhole = true → (∃ x ∈ e :: es, x.gsoLast = true) ∧
      ∀ j x, (groupAt (e :: es))[j]? = some x → x.desc = (gsoCall e).slice j) ∧ GroupsOk es

theorem GroupsOk.tail (h : GroupsOk es) : GroupsOk es.tail := by
  cases es with
  | nil => trivial
  | cons e es => exact h.2

/-- What is behind the last segment does not belong to the group. -/
theorem groupAt_append (h : ∃ x ∈ es, x.gsoLast = true)
    (more : List KlDgramSlot) : groupAt (es ++ more) = groupAt es := by
  induction es with
  | nil =>
    obtain ⟨x, hx, -⟩ := h
    cases hx
  | cons e es ih =>
    simp only [cons_append, groupAt]
    split
    · rfl
    next hlast =>
      obtain ⟨x, hx, hxlast⟩ := h
      rcases mem_cons.mp hx with rfl | hx
      · exact absurd hxlast hlast
      · rw [ih ⟨x, hx, hxlast⟩]

theorem GroupsOk.append {more : List KlDgramSlot} (h : GroupsOk es) (hmore : GroupsOk more) :
    GroupsOk (es ++ more) := by
  induction es with
  | nil => exact hmore
  | cons e es ih =>
    refine ⟨fun hwhole => ?_, ih h.2⟩
    obtain ⟨hlast, hslices⟩ := h.1 hwhole
    refine ⟨?_, ?_⟩
    · obtain ⟨x, hx, hxlast⟩ := hlast
      exact ⟨x, mem_append_left more hx, hxlast⟩
    · show ∀ j x, (groupAt ((e :: es) ++ more))[j]? = some x → x.desc = (gsoCall e).slice j
      rw [groupAt_append hlast]
      exact hslices

theorem groupsOk_singleton {e : KlDgramSlot} (h : e.gsoWhole = false) : GroupsOk [e] :=
  ⟨fun hwhole => by simp [h] at hwhole, trivial⟩

/-- Slots that are not heads form no group of their own. -/
theorem groupsOk_of_no_head (h : ∀ e ∈ es, e.gsoWhole = false) : GroupsOk es := by
  induction es with
  | nil => trivial
  | cons e es ih =>
    refine ⟨fun hwhole => ?_, ih fun x hx => h x (mem_cons_of_mem e hx)⟩
    rw [h e mem_cons_self] at hwhole
    cases hwhole

/-- Falling back takes a group out of the condition and changes nothing else. -/
theorem groupAt_fellBack (b : Nat → Bool) (out : Nat → KlDgramSlot) (l : List Nat) :
    groupAt (l.map fun j => fellBack (b j) (out j)) =
      (groupAt (l.map out)).zipWith (fun e j => fellBack (b j) e) l := by
  induction l with
  | nil => rfl
  | cons j l ih =>
    simp only [map_cons, groupAt]
    show (if (out j).gsoLast = true then _ else _) = _
    split
    · simp
    · rw [zipWith_cons_cons, ih]

theorem GroupsOk.fellBack (b : Nat → Bool) (out : Nat → KlDgramSlot) (l : List Nat)
    (h : GroupsOk (l.map out)) : GroupsOk (l.map fun j => KlDgramSend.fellBack (b j) (out j)) := by
  induction l with
  | nil => trivial
  | cons j l ih =>
    refine ⟨fun hwhole => ?_, ih h.2⟩
    have hwhole' : (out j).gsoWhole = true := by
      simp only [KlDgramSlot.gsoWhole, KlDgramSend.fellBack] at hwhole ⊢
      simp_all
    obtain ⟨⟨x, hx, hlast⟩, hslices⟩ := h.1 hwhole'
    refine ⟨?_, ?_⟩
    · obtain ⟨n, hn, rfl⟩ := mem_map.mp (show x ∈ (j :: l).map out from hx)
      have hmem : KlDgramSend.fellBack (b n) (out n) ∈
          (j :: l).map fun j => KlDgramSend.fellBack (b j) (out j) := mem_map_of_mem hn
      exact ⟨_, hmem, hlast⟩
    · intro n x hx
      change (groupAt ((j :: l).map fun j => KlDgramSend.fellBack (b j) (out j)))[n]? = some x at hx
      rw [groupAt_fellBack, getElem?_zipWith_eq_some] at hx
      obtain ⟨e, m, he, hm, rfl⟩ := hx
      exact hslices n e he

/-- The queued datagrams that the provider is given. -/
def Frame.items : Frame → List Item
  | .submit x _ | .isolate x _ => [x]
  | .batch xs _ => xs
  | .gso _ g ids _ => ids.mapIdx fun j id => ⟨id, g.slice j⟩
  | _ => []

/-! ## The invariant -/

/-- The conditions that a run meets. -/
structure Scope where
  /-- Hooks answer as the mode of the machine allows. -/
  contract : Prop
  /-- Nobody takes datagrams off the queue under a loop that has submitted them. -/
  steady : Prop
  /-- Nobody gets ahead of a datagram that was submitted. -/
  fifo : Prop
  /-- No loop goes on after the error was set under it. -/
  sticky : Prop
  /-- No submission ends with its datagram back on a queue that was discarded. -/
  abort : Prop
  /-- The error was set before. -/
  failed : Prop
  /-- The queue was discarded before. -/
  cancelled : Prop
  /-- Closing began before. -/
  shut : Prop
  /-- The queue was found empty after closing had begun. -/
  drained : Prop
  /-- What a call that is refused with this result leaves behind. -/
  calm : Ret → KlDgramSend → Prop
  /-- What the record of accepted datagrams may be. -/
  log : List KlDgramTxDesc → Prop
  contract_of_steady : steady → contract
  steady_of_fifo : fifo → steady
  contract_of_abort : abort → contract

/-- The books of the machine, with `q` the part of the queue whose fate is open. -/
structure Books (q : List KlDgramSlot) (s : KlDgramSend) : Prop where
  balance : FifoBooks s.accepted.length s.handed s.droppedIds s.discarded (q.map (·.id))
  content : ∀ e ∈ q, s.accepted[e.id]? = some e.desc
  counted : s.dropped = s.droppedIds.length
  blamed : ∀ id ∈ s.droppedIds, id ∈ s.refused

/-- The datagram in flight is the head of the queue, and goes out alone. -/
def Flying (s : KlDgramSend) : Prop :=
  ∃ e, s.entries.head? = some e ∧ e.id = s.flight ∧ (s.submitGso = true → e.gsoWhole = false)

/-- What the state keeps, with `q` the part of the queue whose fate is open. -/
structure Kept (P : Scope) (q : List KlDgramSlot) (s : KlDgramSend) : Prop where
  acct : s.Accounted
  pool : 0 < s.slots.slotCount
  full : s.full = true → 0 < s.count
  inside : s.pendWritable = true → 0 < s.inDispatch
  /-- Whoever was refused is called back: it is due, or the next retirement makes it so. -/
  wake : s.onWritable = true → s.blocked = true →
    s.pendWritable = true ∨ s.full = true ∧ s.retired = false
  idle : P.contract → s.submitRetired = true → s.inflightN = 0
  modes : P.contract → s.completion = true → ∀ e ∈ s.entries, e.gsoWhole = false
  bound : P.contract → s.inflightN ≤ s.count
  books : P.fifo → Books q s
  flying : P.fifo → s.inflightN ≠ 0 → s.Flying
  groups : P.fifo → s.submitGso = true → GroupsOk s.entries
  abort : P.abort → s.aborted = true → s.closing = true ∧ s.count ≤ s.inflightN
  failed : P.failed → s.err = true
  cancelled : P.cancelled → s.aborted = true
  shut : P.shut → s.closing = true
  drained : P.drained → s.closing = true ∧ s.count = 0 ∧ s.inflightN = 0
  log : P.log s.accepted

/-- What is known of a frame that is inside a hook. -/
structure FrameOk (P : Scope) (s : KlDgramSend) (f : Frame) : Prop where
  drops : ∀ k, f = .drop k → s.onDrop = true
  ready : P.contract → s.completion = true → f.readiness = false
  sound : P.steady → f.sound = true
  /-- The rest of a group that is being dropped was refused with the group. -/
  owed : P.fifo → ∀ last rest k, f = .drop (.group last rest k) → ∀ id ∈ rest, id ∈ s.refused
  granted : f.granted = true

/-- What is known of the stack, for a function that has opened `n` dispatch brackets. -/
structure Stacked (P : Scope) (s : KlDgramSend) (n : Nat) (st : List Frame) : Prop where
  depth : s.inDispatch = dispatches st + n
  frames : ∀ f ∈ st, FrameOk P s f
  pending : P.contract → s.completion = false → s.inflightN ≠ 0 → Pending st
  outer : Outer st

/-- What holds when the hook of `f` is called. -/
structure CallOk (P : Scope) (s : KlDgramSend) (f : Frame) : Prop where
  sticky : P.sticky → f.provider = true → s.err = false
  abort : P.abort → f.provider = true → s.aborted = false
  empty : ∀ ret, f = .drain ret → s.count = 0
  own : P.fifo → ∀ x ∈ f.items, s.accepted[x.id]? = some x.desc
  drained : f.provider = true → ¬ P.drained

/-- The invariant after a stretch that ends with `o`, above the frames `st`. -/
structure After (P : Scope) (st : List Frame) (o : SOut) : Prop where
  kept : Kept P o.state.entries o.state
  stacked : Stacked P o.state 0 (o.stack st)
  calls : ∀ f, o.hook = some f → CallOk P o.state f
  result : ∀ r, o.result = some r → r.granted = true ∨ P.calm r o.state

variable {P : Scope} {q q' : List KlDgramSlot} {s s' : KlDgramSend} {st : List Frame} {i : Nat}

/-! ## The frames -/

/-- Frames are looked at through few fields. -/
theorem FrameOk.mono (h : FrameOk P s f) (hdrop : s'.onDrop = s.onDrop)
    (hmode : s'.completion = s.completion) (hrefused : ∀ id ∈ s.refused, id ∈ s'.refused) :
    FrameOk P s' f where
  drops := hdrop.symm ▸ h.drops
  ready := hmode.symm ▸ h.ready
  __ := h
  owed := fun hp last rest k hf id hid => hrefused id (h.owed hp last rest k hf id hid)

namespace Stacked

variable {n : Nat}

theorem mono (h : Stacked P s n st) (hdepth : s'.inDispatch = s.inDispatch)
    (hdrop : s'.onDrop = s.onDrop) (hmode : s'.completion = s.completion)
    (hflight : s'.inflightN ≠ 0 → s.inflightN ≠ 0) (hrefused : ∀ id ∈ s.refused, id ∈ s'.refused) :
    Stacked P s' n st where
  depth := hdepth.trans h.depth
  frames := fun f hf => (h.frames f hf).mono hdrop hmode hrefused
  pending := fun hp hc hi => h.pending hp (hmode ▸ hc) (hflight hi)
  outer := h.outer

/-- A hook is called from inside the brackets. -/
theorem call (h : Stacked P s 1 st) (hdisp : f.dispatching = true) (hf : FrameOk P s f)
    (hpending : P.contract → s.completion = false → s.inflightN ≠ 0 → Pending (f :: st))
    (houter : Outer (f :: st)) : Stacked P s 0 (f :: st) where
  depth := by rw [h.depth, dispatches_cons_of hdisp]
  frames := forall_mem_cons.mpr ⟨hf, h.frames⟩
  pending := hpending
  outer := houter

theorem outer_tail (h : Stacked P s n (f :: st)) : Outer st := by
  have houter := h.outer
  cases f with
  | writable _ => exact houter.2
  | direct _ | submit _ _ | gso _ _ _ _ | batch _ _ | isolate _ _ | drop _ | drain _ | fault =>
    exact houter

/-- A hook returns to a function inside its brackets. -/
theorem resume (h : Stacked P s 0 (f :: st)) (hdisp : f.dispatching = true)
    (hpending : P.contract → s.completion = false → s.inflightN ≠ 0 → Pending st) :
    Stacked P s 1 st where
  depth := by rw [h.depth, dispatches_cons_of hdisp]
  frames := (forall_mem_cons.mp h.frames).2
  pending := hpending
  outer := h.outer_tail

/-- A hook returns to a function without brackets. -/
theorem pop (h : Stacked P s 0 (f :: st)) (hdisp : f.dispatching = false)
    (hpending : P.contract → s.completion = false → s.inflightN ≠ 0 → Pending st) :
    Stacked P s 0 st where
  depth := by
    rw [h.depth, dispatches_cons, hdisp]
    simp
  frames := (forall_mem_cons.mp h.frames).2
  pending := hpending
  outer := h.outer_tail

theorem enterDispatch (h : Stacked P s 0 st) : Stacked P s.enterDispatch 1 st where
  depth := congrArg (· + 1) h.depth
  frames := fun f hf => (h.frames f hf).mono rfl rfl fun _ => id
  __ := h

theorem leave (h : Stacked P s 1 st) (hdepth : s'.inDispatch = dispatches st)
    (hdrop : s'.onDrop = s.onDrop) (hmode : s'.completion = s.completion)
    (hflight : s'.inflightN = s.inflightN) (hrefused : s'.refused = s.refused) :
    Stacked P s' 0 st where
  depth := hdepth
  frames := fun f hf => (h.frames f hf).mono hdrop hmode fun _ hid => hrefused.symm ▸ hid
  pending := fun hp hc hi => h.pending hp (hmode ▸ hc) (hflight ▸ hi)
  outer := h.outer

theorem inDispatch_pos (h : Stacked P s 1 st) : 0 < s.inDispatch := by
  rw [h.depth]
  exact Nat.succ_pos _

end Stacked

end KlDgramSend
