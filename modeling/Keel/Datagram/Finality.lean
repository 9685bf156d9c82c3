-- SUMMARY: What a stretch of the send or receive machine never takes back.
import Keel.Datagram.Close

/-!
# The machines under the coordinator

Closing, a discarded queue and an empty queue that is closing are final for the send
machine, a stopped receive side and the end of its last receive are final for the
receive machine. Calls that do not reach the activity bracket leave alone what the
coordinator looks at.
-/

open Reentrant

namespace KlDgramSend

/-- The queue is empty for good. -/
def Drained (s : KlDgramSend) : Prop := s.closing = true ∧ s.count = 0 ∧ s.inflightN = 0

/-- The scope of a stretch that starts in `s`. -/
def Scope.here (B : Scope) (s : KlDgramSend) : Scope := { B with
    failed := False
    cancelled := s.aborted = true
    shut := s.closing = true
    drained := s.Drained
    calm := fun _ _ => True
    log := fun _ => True }

/-- The invariant of the send machine at the start of a stretch. -/
structure Sound (B : Scope) (s : KlDgramSend) (st : List Frame) : Prop where
  kept : Kept (B.here s) s.entries s
  stacked : Stacked (B.here s) s 0 st

/-- What is final stays. -/
structure Onward (s s' : KlDgramSend) : Prop where
  aborted : s.aborted = true → s'.aborted = true
  closing : s.closing = true → s'.closing = true
  drained : s.Drained → s'.Drained

/-- A stretch that started in `s`, above the frames `st`. -/
structure Moved (B : Scope) (s : KlDgramSend) (st : List Frame) (o : SOut) : Prop where
  sound : Sound B o.state (o.stack st)
  onward : Onward s o.state
  calls : ∀ f, o.hook = some f → f.provider = true →
    ¬ s.Drained ∧ (B.abort → o.state.aborted = false)

variable {B : Scope} {s s' : KlDgramSend} {st : List Frame} {o : SOut}

/-- A stretch that keeps the invariant undoes nothing. -/
theorem Kept.onward (h : Kept (B.here s) s'.entries s') : Onward s s' :=
  ⟨h.cancelled, h.shut, h.drained⟩

/-- The invariant relative to a state is the plain one. -/
theorem Sound.of_here (h : Kept (B.here s) s'.entries s') (hs : Stacked (B.here s) s' 0 st) :
    Sound B s' st where
  kept := { h with cancelled := id, shut := id, drained := id }
  stacked := { hs with frames := fun f hf => { hs.frames f hf with } }

theorem After.moved (h : After (B.here s) st o) : Moved B s st o where
  sound := .of_here h.kept h.stacked
  onward := h.kept.onward
  calls := fun f hf hp => ⟨(h.calls f hf).drained hp, fun ha => (h.calls f hf).abort ha hp⟩

theorem enter_moved (h : Sound B s st) {op : Op} (hm : CallMet B s op) :
    Moved B s st (s.enter op) := by
  have hmet : CallMet (B.here s) s op := { hm with }
  exact (enter_after h.kept h.stacked hmet (fun _ _ _ => trivial) fun _ _ => trivial).moved

/-- The return of a hook of the send side. -/
theorem afterHook_moved {f : Frame} (h : Sound B s (f :: st)) {a : Answer} (hm : RetMet B s f a) :
    Moved B s st (s.afterHook f a) := by
  have hmet : RetMet (B.here s) s f a := { hm with }
  exact (afterHook_after h.kept h.stacked hmet (fun _ _ _ => trivial) fun _ _ => trivial).moved

/-- The close forbids new datagrams and keeps the queue. -/
theorem Sound.close (h : Sound B s st) : Sound B s.close st := by
  have hmoved : Moved B s st (s.enter .setClosing) :=
    enter_moved h ⟨fun _ => trivial, fun _ => trivial⟩
  exact hmoved.sound

/-- A queue that is discarded after closing has begun stays discarded. -/
theorem Sound.discardQueued (h : Sound B s st) : ∃ s', s.discardQueued = some s' ∧ Sound B s' st ∧
    Onward s s' ∧ (s.closing = true → s'.aborted = true) := by
  obtain ⟨s', hs', hkept, halike⟩ := h.kept.discardQueued
  refine ⟨s', hs', .of_here hkept (h.stacked.alike halike), hkept.onward, fun hc => ?_⟩
  obtain ⟨s₁, -, rfl⟩ := Option.map_eq_some_iff.mp hs'
  have hclosing : s₁.closing = true := hkept.shut hc
  simp [hclosing]

end KlDgramSend

namespace KlDgramRecv

/-- A stopped machine stays stopped, and its last receive ends once. -/
structure Onward (r r' : KlDgramRecv) : Prop where
  stopped : r.stopped = true → r'.stopped = true
  retired : r.stopped = true → r.recvInflight = false → r'.recvInflight = false

variable {r r' : KlDgramRecv}

theorem Onward.same (hs : r'.stopped = r.stopped) (hf : r'.recvInflight = r.recvInflight) :
    Onward r r' :=
  ⟨fun h => hs.trans h, fun _ h => hf.trans h⟩

/-- The loop that arms receives does not start one behind a stop. -/
theorem armLoop_onward : Onward r r.armLoop.state := by
  unfold armLoop
  split
  · exact .same rfl rfl
  next hgo => exact ⟨fun h => by simp [h] at hgo, fun h => by simp [h] at hgo⟩

theorem recvArm_onward : Onward r r.recvArm.state := by
  unfold recvArm
  split
  · exact .same rfl rfl
  · exact armLoop_onward

theorem armReturned_onward (rc : Int) : Onward r (r.armReturned rc).state := by
  have harm : Onward r.endArm r.endArm.armLoop.state := armLoop_onward
  unfold armReturned
  split_ifs
  · exact ⟨harm.stopped, harm.retired⟩
  · exact .same rfl rfl
  · exact ⟨fun _ => rfl, fun _ _ => rfl⟩
  · exact .same rfl rfl

theorem continueAfter_onward : Onward r r.continueAfter.state := by
  unfold continueAfter
  split
  · exact .same rfl rfl
  split
  · exact .same rfl rfl
  · exact recvArm_onward

theorem recvFail_onward : Onward r r.recvFail.state := by
  unfold recvFail
  split
  · exact ⟨fun _ => rfl, fun _ h => h⟩
  · exact ⟨fun _ => rfl, fun _ h => h⟩

theorem readLoop_onward (budget : Nat) : Onward r (r.readLoop budget).state := by
  unfold readLoop
  split
  · exact .same rfl rfl
  · exact .same rfl rfl

/-- A receive ends: it fails, or `next` goes on with the slot as it is now. -/
theorem finish_onward {reported : Nat} {next : KlDgramRecv → ROut}
    (hnext : ∀ r', Onward r r' → Onward r (next r').state) :
    Onward r (r.finish reported next).state := by
  unfold finish finalize
  split
  next => exact recvFail_onward
  next r' heq =>
    split at heq
    · cases heq
    · cases heq
      exact hnext _ (.same rfl rfl)

theorem viewDrained_onward (b : Bool) : Onward r (r.viewDrained b).state := by
  unfold viewDrained
  split
  · exact .same rfl rfl
  split
  · exact recvArm_onward
  · exact .same rfl rfl

theorem driveView_onward (budget : Nat) (b : Bool) : Onward r (r.driveView budget b).state := by
  unfold driveView
  split
  · exact .same rfl rfl
  · exact viewDrained_onward b

theorem presentView_onward (v : KlDgramRxView) (k : DeliverK) :
    Onward r (r.presentView v k).state := by
  have hfail : Onward (r.acceptView v) (r.acceptView v).recvFail.state := recvFail_onward
  unfold presentView
  split
  · exact ⟨hfail.stopped, hfail.retired⟩
  split
  · exact ⟨hfail.stopped, hfail.retired⟩
  · exact .same rfl rfl

theorem pullReturned_onward (budget : Nat) (a : Answer) :
    Onward r (r.pullReturned budget a).state := by
  have hfail : Onward r.acceptFailure r.acceptFailure.recvFail.state := recvFail_onward
  have hfinish : Onward (r.accept a.fill a.len)
      ((r.accept a.fill a.len).finish a.len (·.present (.readable budget))).state :=
    finish_onward fun _ h => h
  unfold pullReturned
  split
  · exact .same rfl rfl
  split
  · exact ⟨hfail.stopped, hfail.retired⟩
  · exact ⟨hfinish.stopped, hfinish.retired⟩

theorem viewPullReturned_onward (budget : Nat) (b : Bool) (a : Answer) :
    Onward r (r.viewPullReturned budget b a).state := by
  have hfail : Onward r.acceptFailure r.acceptFailure.recvFail.state := recvFail_onward
  unfold viewPullReturned
  split
  · exact viewDrained_onward b
  split
  · exact ⟨hfail.stopped, hfail.retired⟩
  · exact presentView_onward _ _

theorem afterHook_onward (f : Frame) (a : Answer) : Onward r (r.afterHook f a).state := by
  cases f with
  | arm => exact armReturned_onward a.r
  | disarm ret => exact ⟨id, fun _ _ => rfl⟩
  | pull budget => exact pullReturned_onward budget a
  | viewPull budget b => exact viewPullReturned_onward budget b a
  | deliver d k =>
    cases k with
    | rearm => exact continueAfter_onward
    | readable budget => exact readLoop_onward budget
    | view budget b => exact driveView_onward budget b

/-- An operation that is called on a stopped machine. -/
theorem enter_onward (op : Op) : Onward r (r.enter op).state := by
  by_cases hs : r.stopped = true
  case neg => exact ⟨fun h => absurd h hs, fun h => absurd h hs⟩
  cases op with
  | start =>
    simp only [enter, start, hs, Bool.or_true, Bool.true_or, if_true]
    exact .same rfl rfl
  | onComplete f len ok =>
    simp only [enter, onComplete, hs]
    split
    · exact .same rfl rfl
    · cases ok <;> exact ⟨fun _ => hs, fun _ _ => rfl⟩
  | onReadable =>
    simp only [enter, onReadable, hs]
    split <;> exact .same rfl rfl
  | pause =>
    simp only [enter, pause]
    split
    · exact .same rfl rfl
    split <;> exact .same rfl rfl
  | resume =>
    simp only [enter, resume, hs]
    split <;> exact .same rfl rfl
  | stop => simpa [enter, stop, hs] using Onward.same rfl rfl

end KlDgramRecv

namespace KlDgramClose

/-- A call that does not reach the activity bracket returns at once. When the machine is
closing, it leaves the queue alone. -/
theorem SendOp.plain {s : KlDgramSend} {op : SendOp} (h : op.active s = false) :
    ∃ s' v, s.enter op.op = .done s' v ∧
      (s.closing = true → s'.count = s.count ∧ s'.inflightN = s.inflightN) := by
  cases op with
  | send m =>
    have hv : s.validate m ≠ .accepted := by simpa [SendOp.active] using h
    exact ⟨s.setDirectDropped false, .status (s.validate m), if_pos hv, fun _ => ⟨rfl, rfl⟩⟩
  | enqueue m =>
    by_cases hv : s.validate m = .accepted
    · refine ⟨(s.sendAdmit m true).2, .status (s.sendAdmit m true).1, if_neg (not_not_intro hv),
        fun hc => ?_⟩
      simp [(KlDgramSend.validate_accepted hv).2] at hc
    · exact ⟨s, .status (s.validate m), if_pos hv, fun _ => ⟨rfl, rfl⟩⟩
  | enqueueGso g =>
    refine ⟨_, _, rfl, fun hc => ?_⟩
    unfold KlDgramSend.admitGso
    split
    · exact ⟨rfl, rfl⟩
    split
    · exact ⟨rfl, rfl⟩
    exact ⟨rfl, rfl⟩
  | flush => cases h
  | flushBatch cap =>
    refine ⟨s, .code (-1), ?_, fun _ => ⟨rfl, rfl⟩⟩
    simp only [SendOp.op, KlDgramSend.enter, KlDgramSend.flushBatch]
    split
    · rfl
    next hcap =>
      cases hmode : s.completion <;> simp_all [SendOp.active]
  | onComplete outcome =>
    have hf : s.inflightN = 0 := by simpa [SendOp.active] using h
    exact ⟨s, s.code, by simp [SendOp.op, KlDgramSend.enter, KlDgramSend.onComplete, hf],
      fun _ => ⟨rfl, rfl⟩⟩
  | setConnected on => exact ⟨_, _, rfl, fun _ => ⟨rfl, rfl⟩⟩

/-- A call that does not reach the activity bracket returns at once. -/
theorem recv_plain {r : KlDgramRecv} {op : KlDgramRecv.Op} (h : recvActive r op = false) :
    ∃ r' v, r.enter op = .done r' v ∧ r'.recvInflight = r.recvInflight := by
  cases op with
  | start =>
    simp only [recvActive, Bool.not_eq_false'] at h
    exact ⟨r.setStarted, 0, by simp [KlDgramRecv.enter, KlDgramRecv.start, h], rfl⟩
  | onComplete f len ok =>
    simp only [recvActive] at h
    exact ⟨r, 0, by simp [KlDgramRecv.enter, KlDgramRecv.onComplete, h], rfl⟩
  | onReadable =>
    simp only [KlDgramRecv.enter, KlDgramRecv.onReadable]
    split
    · exact ⟨r, -1, rfl, rfl⟩
    next hc =>
      refine ⟨r, 0, if_pos ?_, rfl⟩
      cases hs : r.stopped <;> cases hp : r.paused <;> simp_all [recvActive]
  | pause =>
    simp only [recvActive, Bool.not_eq_false'] at h
    exact ⟨r, 0, by simp [KlDgramRecv.enter, KlDgramRecv.pause, h], rfl⟩
  | resume =>
    simp only [recvActive] at h
    exact ⟨r, 0, by simp [KlDgramRecv.enter, KlDgramRecv.resume, h], rfl⟩
  | stop =>
    simp only [recvActive, Bool.not_eq_false'] at h
    exact ⟨r, 0, by simp [KlDgramRecv.enter, KlDgramRecv.stop, h], rfl⟩

end KlDgramClose
