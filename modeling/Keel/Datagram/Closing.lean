-- SUMMARY: What the close coordinator keeps between two hook calls.
import Keel.Datagram.Finality

/-!
# Invariants of the close coordinator

`busy` is the weight of the frames on the stack, and the frames of the terminal step
weigh nothing. So the terminal step starts only on an empty stack: on a stack without
weight there is at most one frame, and while that frame belongs to the terminal step
`detaching` keeps a second one from starting.
-/

open Reentrant

namespace KlDgramClose

/-! ## Frames -/

/-- What a frame adds to `busy`. -/
def Frame.weight : Frame → Nat
  | .send _ | .recv _ | .cancelSend .common | .cancelRecv .common | .held => 1
  | .stop => 2
  | _ => 0

/-- It belongs to the terminal step. -/
def Frame.terminal : Frame → Bool
  | .cancelSend (.terminal _) | .cancelRecv (.terminal _) => true
  | .retireRecv _ | .backend _ | .classify _ _ _ _ _ => true
  | _ => false

def CleanupK.weight : CleanupK → Nat
  | .common => 1
  | .terminal _ => 0

def CleanupK.inside : CleanupK → Bool
  | .common => false
  | .terminal _ => true

def weigh (st : List Frame) : Nat := (st.map Frame.weight).sum

@[simp] theorem weigh_cons (f : Frame) (st : List Frame) : weigh (f :: st) = f.weight + weigh st :=
  rfl

/-- A frame that weighs nothing has nothing below it. -/
def Grounded : List Frame → Prop
  | [] => True
  | f :: st => (f.weight = 0 → st = []) ∧ Grounded st

/-- Without weight there is one frame at most. -/
theorem Grounded.of_weightless {st : List Frame} (h : Grounded st) (hw : weigh st = 0) :
    st = [] ∨ ∃ f, st = [f] ∧ f.weight = 0 := by
  cases st with
  | nil => exact .inl rfl
  | cons f st =>
    have hf : f.weight = 0 := Nat.eq_zero_of_add_eq_zero_right hw
    rw [h.1 hf]
    exact .inr ⟨f, rfl, hf⟩

def sendFrames (st : List Frame) : List KlDgramSend.Frame :=
  st.filterMap fun
    | .send f => some f
    | _ => none

/-- A close is stopping the receive side, and the send machine was not called since. -/
def Waiting : List Frame → Prop
  | [] | .send _ :: _ => False
  | .stop :: _ => True
  | _ :: st => Waiting st

/-- The hooks that are called once. -/
inductive Hook where
  | close
  | backend
  | cancelSend
  | cancelRecv
deriving DecidableEq, Repr

def Frame.hook : Frame → Option Hook
  | .onClose _ _ => some .close
  | .backend _ => some .backend
  | .cancelSend _ => some .cancelSend
  | .cancelRecv _ | .retireRecv _ => some .cancelRecv
  | _ => none

def Frame.isRetireRecv : Frame → Bool
  | .retireRecv _ => true
  | _ => false

/-- The hook was called, as far as the flags of the coordinator tell. The backend step
sets its flag before it cancels the receive. -/
def called (c : KlDgramClose) (st : List Frame) : Hook → Bool
  | .close => c.onClose && c.notified
  | .backend => c.backendClose && c.backendRetired && !st.any Frame.isRetireRecv
  | .cancelSend => c.sendCancelRequested
  | .cancelRecv => c.recvCancelRequested

/-! ## The invariant -/

/-- The conditions that a run meets, and what is known of it. -/
structure Scope where
  base : KlDgramSend.Scope
  /-- The classifier says what the backend knows, and no abandoned close asks it while one
  operation is quarantined and the other one pending. -/
  honest : Prop
  /-- The classifier was asked and said PENDING. -/
  asked : Prop

/-- The close is abortive, or its queue is empty for good. -/
def Cancelled (c : KlDgramClose) : Prop := c.state ≠ .opened ∧ (c.abort = true ∨ c.send.Drained)

/-- The result says what became of the operations. -/
structure Faithful (c : KlDgramClose) (res : KlDatagramCloseResult) : Prop where
  quarantined : res = .quarantined ↔ ∃ kind, c.opClass kind = .quarantined
  closeError : res = .closeError → ∀ kind, c.opClass kind = .retired

/-- What the classifier has said before it is asked about `kind`. -/
def Joining (c : KlDgramClose) (quarantined : Bool) : KlDgramOpKind → Prop
  | .recv => quarantined = false
  | .send => c.opClass .recv ≠ .pending ∧ (quarantined = true ↔ c.opClass .recv = .quarantined)

/-- A classifier is asked once the transport is closed, and nothing is outstanding unless
the close was abandoned. -/
structure Classifying (P : Scope) (c : KlDgramClose) (kind : KlDgramOpKind)
    (quarantined abandoned : Bool) : Prop where
  state : c.state = .closing
  backend : c.backendRetired = true
  installed : c.retire = true
  abandon : abandoned = true → c.abandon = true
  gate : abandoned = false → c.fullyRetired = true
  joining : P.honest → c.Joining quarantined kind

/-- What is known of a frame that is inside a hook. -/
def FrameOk (P : Scope) (c : KlDgramClose) : Frame → Prop
  | .stop => c.state ≠ .opened
  | .onClose _ _ => c.state = .closed
  | .cancelSend (.terminal _) | .cancelRecv (.terminal _) => c.state = .closing
  | .retireRecv _ | .backend _ => c.state = .closing ∧ c.backendRetired = true
  | .classify kind q _ abandoned _ => Classifying P c kind q abandoned
  | .fault => False
  | _ => True

/-- What holds inside a function of the coordinator that adds `n` to `busy`; `t` says that
it is the terminal step. -/
structure Running (P : Scope) (n : Nat) (t : Bool) (c : KlDgramClose) (st : List Frame) : Prop where
  busy : c.busy = weigh st + n
  grounded : Grounded st
  detaching : c.detaching = (t || st.any Frame.terminal)
  inside : t = true → st = [] ∧ c.state = .closing
  notified : c.notified = true ↔ c.state = .closed
  closing : c.state ≠ .opened → c.send.closing = true ∧ c.recv.stopped = true
  frames : ∀ f ∈ st, FrameOk P c f
  abandon : c.abandon = true → c.abort = true
  closed : c.state = .closed → c.backendRetired = true ∧ c.Cancelled

/-- The queue of an abortive close is discarded, or a close is about to do it. -/
def Swept (P : Scope) (c : KlDgramClose) (st : List Frame) : Prop :=
  P.base.abort → c.abort = true → c.send.aborted = true ∨ Waiting st

/-- A close that nobody works on waits for an operation that is outstanding. -/
def Settled (P : Scope) (c : KlDgramClose) (st : List Frame) : Prop :=
  st = [] → c.state = .closing →
    (c.sendDrained = true → c.backendRetired = true) ∧ (c.fullyRetired = true → P.asked)

/-- What the coordinator and its machines keep. -/
structure Kept (P : Scope) (c : KlDgramClose) (st : List Frame) : Prop where
  send : KlDgramSend.Sound P.base c.send (sendFrames st)
  run : Running P 0 false c st
  swept : Swept P c st
  settled : Settled P c st

/-- What holds when the hook of `f` is called by a stretch that started in `c₀`. -/
structure CallOk (P : Scope) (c₀ c : KlDgramClose) (st : List Frame) (f : Frame) : Prop where
  close : ∀ res ret, f = .onClose res ret → c.busy = 0 ∧ st = [] ∧ c.backendRetired = true ∧
    (c.abandon = false → c.fullyRetired = true) ∧ (P.honest → c.Faithful res)
  dropped : P.base.abort → ∀ g, f = .send g → g.provider = true → ¬ c₀.Cancelled

/-- A stretch that started in `c₀` with the stack `st₀`, and ends above the frames `st`. -/
structure After (P : Scope) (c₀ : KlDgramClose) (st₀ st : List Frame) (o : COut) : Prop where
  kept : Kept P o.state (o.stack st)
  tally : ∀ k, (o.state.called (o.stack st) k).toNat =
    (c₀.called st₀ k).toNat + if o.hook.bind Frame.hook = some k then 1 else 0
  cancelled : c₀.Cancelled → o.state.Cancelled
  calls : ∀ f, o.hook = some f → CallOk P c₀ o.state st f

/-- What a stretch that started in `c₀` has come to. -/
structure Here (P : Scope) (c₀ : KlDgramClose) (st₀ : List Frame) (n : Nat) (t : Bool)
    (c : KlDgramClose) (st : List Frame) : Prop where
  send : KlDgramSend.Sound P.base c.send (sendFrames st)
  run : Running P n t c st
  tally : ∀ k, c.called st k = c₀.called st₀ k
  cancelled : c₀.Cancelled → c.Cancelled

variable {P : Scope} {c₀ c c' : KlDgramClose} {st₀ st : List Frame} {n n' : Nat} {t : Bool}
  {f : Frame}
  {ret : Ret}

/-! ## Steps inside a stretch -/

/-- What the coordinator never takes back while frames are on the stack. -/
structure Onward (c c' : KlDgramClose) : Prop where
  state : c'.state = c.state ∨ c.state = .opened ∧ c'.state = .closing
  backend : c.backendRetired = true → c'.backendRetired = true
  retire : c'.retire = c.retire
  abandon : c.abandon = true → c'.abandon = true
  retired : c.state ≠ .opened → c.fullyRetired = true → c'.fullyRetired = true
  recvClass : c.opClass .recv ≠ .pending → c'.opClass .recv = c.opClass .recv
  cancelled : c.Cancelled → c'.Cancelled
  detaching : c'.detaching = c.detaching
  notified : c'.notified = c.notified

theorem Onward.refl (c : KlDgramClose) : Onward c c :=
  ⟨.inl rfl, id, rfl, id, fun _ => id, fun _ => rfl, id, rfl, rfl⟩

/-- A close that has begun is moved on by its own functions only. -/
theorem Onward.state_eq (h : Onward c c') (hc : c.state ≠ .opened) : c'.state = c.state := by
  rcases h.state with heq | ⟨ho, -⟩
  · exact heq
  · exact absurd ho hc

theorem Onward.closing (h : Onward c c') (hc : c.state = .closing) : c'.state = .closing :=
  (h.state_eq (by simp [hc])).trans hc

/-- No other stretch ends it. -/
theorem Onward.closed_iff (h : Onward c c') : c'.state = .closed ↔ c.state = .closed := by
  rcases h.state with heq | ⟨ho, hc⟩
  · rw [heq]
  · simp [ho, hc]

variable {kind : KlDgramOpKind} {abandoned : Bool} {q te : Bool} {s : KlDgramSend} {r : KlDgramRecv}
  {a : Answer}

/-- What a classification knows stays true while the others work. -/
theorem Classifying.onward (h : Classifying P c kind q abandoned) (ho : Onward c c') :
    Classifying P c' kind q abandoned where
  state := ho.closing h.state
  backend := ho.backend h.backend
  installed := ho.retire.trans h.installed
  abandon := fun ha => ho.abandon (h.abandon ha)
  gate := fun ha => ho.retired (by simp [h.state]) (h.gate ha)
  joining := fun hp => by
    have hj := h.joining hp
    cases kind with
    | recv => exact hj
    | send =>
      obtain ⟨hne, hq⟩ := hj
      show c'.opClass .recv ≠ .pending ∧ (q = true ↔ c'.opClass .recv = .quarantined)
      rw [ho.recvClass hne]
      exact ⟨hne, hq⟩

theorem FrameOk.onward (h : FrameOk P c f) (ho : Onward c c') : FrameOk P c' f := by
  cases f with
  | stop =>
    intro hc
    rcases ho.state with heq | ⟨-, hc'⟩
    · exact h (heq ▸ hc)
    · simp [hc'] at hc
  | onClose res ret => exact ho.closed_iff.mpr h
  | cancelSend k | cancelRecv k =>
    cases k with
    | common => trivial
    | terminal ret => exact ho.closing h
  | retireRecv ret | backend ret => exact ⟨ho.closing h.1, ho.backend h.2⟩
  | classify kind q te abandoned ret => exact Classifying.onward h ho
  | fault => exact h
  | send g | recv g => trivial
  | held => trivial

theorem Running.onward (h : Running P n t c st) (ho : Onward c c') (hbusy : c'.busy = weigh st + n')
    (hclosing : c'.state ≠ .opened → c'.send.closing = true ∧ c'.recv.stopped = true)
    (habandon : c'.abandon = true → c'.abort = true) : Running P n' t c' st where
  busy := hbusy
  grounded := h.grounded
  detaching := ho.detaching.trans h.detaching
  inside := fun ht => ⟨(h.inside ht).1, ho.closing (h.inside ht).2⟩
  notified := by rw [ho.notified, ho.closed_iff, h.notified]
  closing := hclosing
  frames := fun f hf => (h.frames f hf).onward ho
  abandon := habandon
  closed := fun hc =>
    ⟨ho.backend (h.closed (ho.closed_iff.mp hc)).1, ho.cancelled (h.closed (ho.closed_iff.mp hc)).2⟩

/-- A hook is called: its frame weighs what the function added. -/
theorem Running.push (h : Running P f.weight f.terminal c st) (hf : FrameOk P c f)
    (hground : f.weight = 0 → st = []) : Running P 0 false c (f :: st) where
  busy := by rw [h.busy, weigh_cons, Nat.add_comm, Nat.add_zero]
  grounded := ⟨hground, h.grounded⟩
  detaching := by rw [h.detaching, List.any_cons, Bool.false_or]
  inside := nofun
  __ := h
  frames := List.forall_mem_cons.mpr ⟨hf, h.frames⟩

/-- Terminal frames do not count as work. -/
theorem Frame.weight_of_terminal (h : f.terminal = true) : f.weight = 0 := by
  cases f with
  | cancelSend k | cancelRecv k => cases k <;> first | rfl | cases h
  | retireRecv ret | backend ret => rfl
  | classify kind q te abandoned ret => rfl
  | send g | recv g => cases h
  | stop | held | fault => cases h
  | onClose res ret => cases h

/-- A terminal frame runs while the close is on. -/
theorem FrameOk.closing (h : FrameOk P c f) (ht : f.terminal = true) : c.state = .closing := by
  cases f with
  | cancelSend k | cancelRecv k =>
    cases k with
    | common => cases ht
    | terminal ret => exact h
  | retireRecv ret | backend ret => exact h.1
  | classify kind q te abandoned ret => exact Classifying.state h
  | send g | recv g => cases ht
  | stop | held | fault => cases ht
  | onClose res ret => cases ht

/-- A frame that weighs nothing belongs to the terminal step or to its last act. -/
theorem FrameOk.closed (h : FrameOk P c f) (hw : f.weight = 0) (ht : f.terminal = false) :
    c.state = .closed := by
  cases f with
  | cancelSend k | cancelRecv k =>
    cases k with
    | common => cases hw
    | terminal ret => cases ht
  | retireRecv ret | backend ret => cases ht
  | classify kind q te abandoned ret => cases ht
  | send g | recv g => cases hw
  | stop | held => cases hw
  | fault => exact absurd h id
  | onClose res ret => exact h

theorem Running.pop (h : Running P 0 false c (f :: st)) : Running P f.weight f.terminal c st where
  busy := by rw [h.busy, weigh_cons, Nat.add_zero, Nat.add_comm]
  grounded := h.grounded.2
  detaching := by rw [h.detaching, List.any_cons, Bool.false_or]
  inside := fun ht =>
    ⟨h.grounded.1 (Frame.weight_of_terminal ht), (h.frames f List.mem_cons_self).closing ht⟩
  __ := h
  frames := (List.forall_mem_cons.mp h.frames).2

/-- The frame that returns is not one of the send machine. -/
theorem Kept.resume (h : Kept P c (f :: st)) (hf : sendFrames (f :: st) = sendFrames st)
    (hretire : f.isRetireRecv = false) : Here P c (f :: st) f.weight f.terminal c st where
  send := hf ▸ h.send
  run := h.run.pop
  tally := fun k => by cases k <;> simp [called, hretire]
  cancelled := id

theorem Kept.here (h : Kept P c st) : Here P c st 0 false c st := ⟨h.send, h.run, fun _ => rfl, id⟩

namespace Here

/-- A change that moves nothing back, with its books. -/
theorem onward (h : Here P c₀ st₀ n t c st) (ho : Onward c c')
    (hsend : KlDgramSend.Sound P.base c'.send (sendFrames st)) (hbusy : c'.busy = weigh st + n')
    (hclosing : c'.state ≠ .opened → c'.send.closing = true ∧ c'.recv.stopped = true)
    (habandon : c'.abandon = true → c'.abort = true)
    (htally : ∀ k, c'.called st k = c.called st k) : Here P c₀ st₀ n' t c' st where
  send := hsend
  run := h.run.onward ho hbusy hclosing habandon
  tally := fun k => (htally k).trans (h.tally k)
  cancelled := fun hc => ho.cancelled (h.cancelled hc)

theorem closeEnter (h : Here P c₀ st₀ n t c st) : Here P c₀ st₀ (n + 1) t c.closeEnter st :=
  h.onward { Onward.refl c with } h.send
    (congrArg (· + 1) h.run.busy) h.run.closing h.run.abandon fun k => by cases k <;> rfl

theorem left (h : Here P c₀ st₀ (n + 1) t c st) : Here P c₀ st₀ n t c.left st :=
  h.onward { Onward.refl c with } h.send
    (congrArg (· - 1) h.run.busy) h.run.closing h.run.abandon fun k => by cases k <;> rfl

theorem setAbort (h : Here P c₀ st₀ n t c st) : Here P c₀ st₀ n t c.setAbort st :=
  h.onward { Onward.refl c with cancelled := fun hc => ⟨hc.1, .inl rfl⟩ } h.send
    h.run.busy h.run.closing (fun _ => rfl) fun k => by cases k <;> rfl

theorem retireBackend (h : Running P n t c st) : Running P n t c.retireBackend st :=
  h.onward { Onward.refl c with backend := fun _ => rfl } h.busy h.closing h.abandon

end Here

theorem Running.askRecv (h : Running P n t c st) : Running P n t c.askRecv st :=
  h.onward { Onward.refl c with } h.busy h.closing h.abandon

theorem Running.onward_setSend (h : Running P n t c st)
    (hs : KlDgramSend.Onward c.send s) : Onward c (c.setSend s) := by
  refine ⟨.inl rfl, id, rfl, id, fun hc hr => ?_, fun _ => rfl, ?_, rfl, rfl⟩
  · simp only [fullyRetired, sendDrained, Bool.and_eq_true, beq_iff_eq] at hr
    obtain ⟨-, hcount, hflight⟩ := hs.drained ⟨(h.closing hc).1, hr.2.2, hr.2.1⟩
    simp [fullyRetired, sendDrained, hcount, hflight, hr.1]
  · exact fun hc => ⟨hc.1, hc.2.imp_right hs.drained⟩

theorem Running.setSend (h : Running P n t c st)
    (hs : KlDgramSend.Onward c.send s) : Running P n t (c.setSend s) st :=
  h.onward (h.onward_setSend hs) h.busy
    (fun hc => ⟨hs.closing (h.closing hc).1, (h.closing hc).2⟩) h.abandon

theorem Here.setRecv (h : Here P c₀ st₀ n t c st)
    (hr : KlDgramRecv.Onward c.recv r) : Here P c₀ st₀ n t (c.setRecv r) st := by
  refine h.onward ⟨.inl rfl, id, rfl, id, fun hc hfull => ?_, fun _ => rfl, id, rfl,
    rfl⟩ h.send h.run.busy
    (fun hc => ⟨(h.run.closing hc).1, hr.stopped (h.run.closing hc).2⟩) h.run.abandon
    fun k => by cases k <;> rfl
  simp only [fullyRetired, Bool.and_eq_true, Bool.not_eq_true'] at hfull ⊢
  exact ⟨hr.retired (h.run.closing hc).2 hfull.1, hfull.2⟩

/-! ## Ends of a stretch -/

theorem After.done (h : Here P c₀ st₀ 0 false c st) (hswept : Swept P c st)
    (hsettled : Settled P c st) : After P c₀ st₀ st (.done c ret) where
  kept := ⟨h.send, h.run, hswept, hsettled⟩
  tally := fun k => by simp [h.tally k]
  cancelled := h.cancelled
  calls := fun f hf => by cases hf

theorem After.call (hsend : KlDgramSend.Sound P.base c.send (sendFrames (f :: st)))
    (hrun : Running P 0 false c (f :: st)) (hswept : Swept P c (f :: st))
    (htally : ∀ k, (c.called (f :: st) k).toNat =
      (c₀.called st₀ k).toNat + if f.hook = some k then 1 else 0)
    (hcancelled : c₀.Cancelled → c.Cancelled) (hcall : CallOk P c₀ c st f) :
    After P c₀ st₀ st (.call c f) where
  kept := ⟨hsend, hrun, hswept, nofun⟩
  tally := htally
  cancelled := hcancelled
  calls := fun g hg => by
    cases hg
    exact hcall

/-- The hooks other than on_close and those of the send machine. -/
theorem CallOk.other (hclose : f.hook ≠ some .close) (hsend : ∀ g, f ≠ .send g) :
    CallOk P c₀ c st f where
  close := fun _ _ hf => absurd (hf ▸ rfl) hclose
  dropped := fun _ g hf => absurd hf (hsend g)

/-- A hook that is not counted, and not one of the send machine. -/
theorem Here.call (h : Here P c₀ st₀ f.weight f.terminal c st) (hf : FrameOk P c f)
    (hground : f.weight = 0 → st = []) (hswept : Swept P c (f :: st)) (hhook : f.hook = none)
    (hsend : ∀ g, f ≠ .send g) : After P c₀ st₀ st (.call c f) := by
  have hsame : sendFrames (f :: st) = sendFrames st := by
    cases f <;> first | rfl | exact absurd rfl (hsend _)
  have hquiet : f.isRetireRecv = false := by cases f <;> first | rfl | cases hhook
  refine .call (hsame ▸ h.send) (h.run.push hf hground) hswept (fun k => ?_) h.cancelled
    (.other (by simp [hhook]) hsend)
  rw [← h.tally k]
  cases k <;> simp [called, hhook, hquiet]

/-! ## The terminal step -/

/-- With all operations retired the send queue is empty. -/
theorem Running.fullyRetired_drained (h : Running P n t c st) (hc : c.state = .closing)
    (hfull : c.fullyRetired = true) : c.send.Drained := by
  simp only [fullyRetired, sendDrained, Bool.and_eq_true, beq_iff_eq] at hfull
  exact ⟨(h.closing (by simp [hc])).1, hfull.2.2, hfull.2.1⟩

/-- The detachment: everything is retired, or the close is abandoned. -/
theorem detach_after {res : KlDatagramCloseResult} (h : Here P c₀ st₀ 0 false c [])
    (hstate : c.state = .closing) (hback : c.backendRetired = true) (hswept : Swept P c [])
    (hgate : c.abandon = false → c.fullyRetired = true) (hres : P.honest → c.Faithful res) :
    After P c₀ st₀ [] (c.detach res ret) := by
  have hnot : c.notified = false := by
    have hiff := h.run.notified
    rw [hstate] at hiff
    simpa using hiff
  have hcancelled : (c.setClosed res).Cancelled := by
    refine ⟨by simp, ?_⟩
    cases ha : c.abandon with
    | true => exact .inl (h.run.abandon ha)
    | false => exact .inr (h.run.fullyRetired_drained hstate (hgate ha))
  have hrun : Running P 0 false (c.setClosed res) [] :=
    { h.run with
      inside := nofun
      notified := by simp
      closing := fun _ => h.run.closing (by simp [hstate])
      frames := fun f hf => absurd hf List.not_mem_nil
      closed := fun _ => ⟨hback, hcancelled⟩ }
  unfold detach
  rw [if_neg (by simp [hnot])]
  split
  next hon =>
    refine .call h.send (Running.push hrun rfl fun _ => rfl) hswept ?_ (fun _ => hcancelled) ?_
    · intro k
      rw [← h.tally k]
      cases k <;> simp [called, Frame.hook, Frame.isRetireRecv, hon, hnot]
    · refine ⟨?_, nofun⟩
      rintro _ _ ⟨⟩
      exact ⟨h.run.busy, rfl, hback, hgate, fun hp => { hres hp with }⟩
  next hoff =>
    refine .done ⟨h.send, hrun, fun k => ?_, fun _ => hcancelled⟩ hswept nofun
    rw [← h.tally k]
    cases k <;> simp [called, hoff]

section

variable (h : Here P c₀ st₀ 0 true c []) (hback : c.backendRetired = true) (hswept : Swept P c [])
  (habandon : abandoned = true → c.abandon = true) (hgate : abandoned = false →
    c.fullyRetired = true)
include h hback hswept habandon hgate

/-- The end of the terminal step, with the result of `close_join_result`. -/
theorem conclude_after {res : KlDatagramCloseResult}
    (hasked : res = .none → P.asked)
    (hres : P.honest → res = .none ∧ (abandoned = true → c.Faithful .detached) ∨ c.Faithful res) :
    After P c₀ st₀ [] (c.conclude abandoned ret res) := by
  have hstate : c.state = .closing := (h.run.inside rfl).2
  have hout : Here P c₀ st₀ 0 false (c.setDetaching false) [] :=
    { h with
      run := { h.run with
        detaching := rfl, inside := nofun, frames := fun f hf => absurd hf List.not_mem_nil }
      tally := fun k => by rw [← h.tally k]; cases k <;> rfl }
  have hgate' : c.abandon = false → c.fullyRetired = true := by
    intro ha
    cases hab : abandoned with
    | true => simp [habandon hab] at ha
    | false => exact hgate hab
  unfold conclude
  split
  next hnone =>
    split
    next hab =>
      refine detach_after hout hstate hback hswept hgate' fun hp => ?_
      rcases hres hp with hf | hf
      · exact { hf.2 hab with }
      · -- NONE is no result
        subst hnone
        exact ⟨⟨nofun, fun hq => absurd (hf.quarantined.mpr hq) (by simp)⟩, nofun⟩
    next => exact .done hout hswept fun _ _ => ⟨fun _ => hback, fun _ => hasked hnone⟩
  next hsome =>
    refine detach_after hout hstate hback hswept hgate' fun hp => ?_
    rcases hres hp with hf | hf
    · exact absurd hf.1 hsome
    · exact { hf with }

/-- The classes of both operations are joined. -/
theorem joinResult_after : After P c₀ st₀ [] (c.joinResult abandoned ret) := by
  unfold joinResult
  split
  next hon =>
    exact Here.call h ⟨(h.run.inside rfl).2, hback, hon, habandon, hgate, fun _ => rfl⟩
      (fun _ => rfl) hswept
      rfl nofun
  next hoff =>
    refine conclude_after h hback hswept habandon hgate nofun fun _ => .inr ?_
    refine ⟨⟨nofun, ?_⟩, nofun⟩
    rintro ⟨kind, hq⟩
    simp [opClass, hoff] at hq

end

/-- The terminal phase picks its result. -/
theorem terminalResult_after (h : Here P c₀ st₀ 0 true c []) (hswept : Swept P c [])
    (hback : c.backendRetired = true ∨ c.sendDrained = false ∧ c.abandon = false) :
    After P c₀ st₀ [] (c.terminalResult ret) := by
  unfold terminalResult
  split
  next ha =>
    have hret : c.backendRetired = true := by
      rcases hback with hret | ⟨-, hno⟩
      · exact hret
      · simp [hno] at ha
    exact joinResult_after h hret hswept (fun _ => ha) nofun
  next =>
    split
    next hfull =>
      have hret : c.backendRetired = true := by
        rcases hback with hret | ⟨hno, -⟩
        · exact hret
        · simp [fullyRetired, hno] at hfull
      exact joinResult_after h hret hswept nofun fun _ => hfull
    next hfull =>
      refine .done ⟨h.send, ?_, fun k => ?_, h.cancelled⟩ hswept fun _ _ =>
        ⟨fun hd => ?_, fun hf => absurd hf hfull⟩
      · exact { h.run with
          detaching := rfl, inside := nofun, frames := fun f hf => absurd hf List.not_mem_nil }
      · rw [← h.tally k]
        cases k <;> rfl
      · rcases hback with hret | ⟨hno, -⟩
        · exact hret
        · exact absurd (show c.sendDrained = true from hd) (by simp [hno])

/-- The transport is closed by the stretch that sets the flag, or by the one after
`cancel_recv`. -/
theorem closeBackend_after (hsend : KlDgramSend.Sound P.base c.send [])
    (hrun : Running P 0 true c []) (hswept : Swept P c []) (hback : c.backendRetired = true)
    (htally : ∀ k, k ≠ .backend → c.called [] k = c₀.called st₀ k)
    (hnot : c₀.called st₀ .backend = false) (hcancelled : c₀.Cancelled → c.Cancelled) :
    After P c₀ st₀ [] (c.closeBackend ret) := by
  unfold closeBackend
  split
  next hon =>
    refine .call hsend (Running.push hrun ⟨(hrun.inside rfl).2, hback⟩ fun _ => rfl) hswept
      (fun k => ?_) hcancelled (.other nofun nofun)
    by_cases hk : k = .backend
    · rw [hk, hnot]
      simp [called, Frame.hook, Frame.isRetireRecv, hon, hback]
    · rw [← htally k hk]
      cases k <;> first | rfl | exact absurd rfl hk
  next hoff =>
    refine terminalResult_after ⟨hsend, hrun, fun k => ?_, hcancelled⟩ hswept (.inl hback)
    by_cases hk : k = .backend
    · rw [hk, hnot]
      simp [called, hoff]
    · exact htally k hk

/-- The backend is retired once the queue is empty. -/
theorem backendStep_after (h : Here P c₀ st₀ 0 true c []) (hswept : Swept P c []) :
    After P c₀ st₀ [] (c.backendStep ret) := by
  have hstate : c.state = .closing := (h.run.inside rfl).2
  have hrun : Running P 0 true c.retireBackend [] := Here.retireBackend h.run
  unfold backendStep
  split
  next hgo =>
    have hret : c.backendRetired = false := by simp_all
    have hnot : c₀.called st₀ .backend = false := by
      rw [← h.tally]
      simp [called, hret]
    split
    next hcancel =>
      have hno : c.recvCancelRequested = false := by simp_all [cancelsRecv]
      refine .call h.send (Running.push hrun.askRecv ⟨hstate, rfl⟩ fun _ => rfl) hswept
        (fun k => ?_) h.cancelled (.other nofun nofun)
      rw [← h.tally k]
      cases k <;> simp [called, Frame.hook, Frame.isRetireRecv, hret, hno]
    next =>
      refine closeBackend_after h.send hrun hswept rfl (fun k hk => ?_) hnot h.cancelled
      rw [← h.tally k]
      cases k <;> first | rfl | exact absurd rfl hk
  next hno =>
    refine terminalResult_after h hswept ?_
    cases hret : c.backendRetired with
    | true => exact .inl rfl
    | false => simpa [hret] using hno

/-! ## Cleanup -/

variable {k : CleanupK} {next : KlDgramClose → COut}

theorem Running.cancel (h : Running P k.weight k.inside c st)
    (hf : f = .cancelSend k ∨ f = .cancelRecv k) : Running P 0 false c (f :: st) := by
  cases k with
  | common => rcases hf with rfl | rfl <;> exact .push h trivial nofun
  | terminal ret =>
    rcases hf with rfl | rfl <;> exact .push h (h.inside rfl).2 fun _ => (h.inside rfl).1

section

variable (h : Here P c₀ st₀ k.weight k.inside c st)
include h

/-- A pending receive is asked to cancel. -/
theorem requestRecv_after (hswept : Swept P c st)
    (hnext : After P c₀ st₀ st (next c)) : After P c₀ st₀ st (c.requestRecv k next) := by
  unfold requestRecv
  split
  next hcancel =>
    have hno : c.recvCancelRequested = false := by simp_all [cancelsRecv]
    refine .call h.send (h.run.askRecv.cancel (.inr rfl)) hswept (fun j =>
      ?_) h.cancelled (.other nofun nofun)
    rw [← h.tally j]
    cases j <;> simp [called, Frame.hook, Frame.isRetireRecv, hno]
  next => exact hnext

/-- A pending send is asked to cancel. -/
theorem requestSend_after (hswept : Swept P c st)
    (hnext : After P c₀ st₀ st (next c)) : After P c₀ st₀ st (c.requestSend k next) := by
  unfold requestSend
  split
  next hcancel =>
    have hno : c.sendCancelRequested = false := by simp_all [cancelsSend]
    have hask : Running P k.weight k.inside c.askSend st :=
      h.run.onward { Onward.refl c with } h.run.busy h.run.closing h.run.abandon
    refine .call h.send (hask.cancel (.inl rfl)) hswept (fun j =>
      ?_) h.cancelled (.other nofun nofun)
    rw [← h.tally j]
    cases j <;> simp [called, Frame.hook, Frame.isRetireRecv, hno]
  next => exact requestRecv_after h hswept hnext

/-- Whatever was left of the queue, it is discarded now. -/
theorem abortCleanup_after (hstate : c.state ≠ .opened)
    (hnext : ∀ c', Here P c₀ st₀ k.weight k.inside c' st → Swept P c' st →
      After P c₀ st₀ st (next c')) :
    After P c₀ st₀ st (c.abortCleanup k next) := by
  obtain ⟨s, hs, hsound, honward, haborted⟩ := h.send.discardQueued
  have habort := h.setAbort
  have hhere : Here P c₀ st₀ k.weight k.inside (c.setAbort.setSend s) st :=
    { send := hsound
      run := habort.run.setSend honward
      tally := fun j => by rw [← h.tally j]; cases j <;> rfl
      cancelled := fun _ => ⟨hstate, .inl rfl⟩ }
  have hswept : Swept P (c.setAbort.setSend s) st :=
    fun _ _ => .inl (haborted (h.run.closing hstate).1)
  unfold abortCleanup
  rw [hs]
  exact requestSend_after hhere hswept (hnext _ hhere hswept)

end

/-- The terminal step starts on an empty stack, or not at all. -/
theorem runTerminal_after (h : Here P c₀ st₀ 0 false c st) (hw : weigh st = 0)
    (hswept : Swept P c st) : After P c₀ st₀ st (c.runTerminal ret) := by
  unfold runTerminal
  split
  next hstop =>
    refine .done h hswept ?_
    rintro rfl hc
    rcases hstop with hne | hdet
    · exact absurd hc hne
    · rw [h.run.detaching] at hdet
      cases hdet
  next hgo =>
    rw [not_or, not_not] at hgo
    have hnil : st = [] := by
      rcases h.run.grounded.of_weightless hw with hnil | ⟨f, rfl, hf⟩
      · exact hnil
      have hterm : f.terminal = false := by
        have hdet := h.run.detaching
        rw [Bool.eq_false_of_not_eq_true hgo.2] at hdet
        simpa using hdet.symm
      have hclosed := (h.run.frames f List.mem_cons_self).closed hf hterm
      simp [hgo.1] at hclosed
    subst hnil
    have hinside : Here P c₀ st₀ 0 true (c.setDetaching true) [] :=
      { h with
        run := { h.run with
          detaching := rfl, inside := fun _ => ⟨rfl, hgo.1⟩, frames := fun f hf =>
            absurd hf List.not_mem_nil }
        tally := fun k => by rw [← h.tally k]; cases k <;> rfl }
    split
    · refine abortCleanup_after hinside (by simp [hgo.1]) fun c' h' hswept' => ?_
      exact backendStep_after h' hswept'
    · exact backendStep_after hinside hswept

/-- The last bracket runs the terminal phase. -/
theorem closeLeave_after (h : Here P c₀ st₀ 1 false c st) (hswept : Swept P c st) :
    After P c₀ st₀ st (c.closeLeave ret) := by
  have hleft : Here P c₀ st₀ 0 false c.left st := Here.left h
  unfold closeLeave
  split
  next hzero => exact runTerminal_after hleft (hleft.run.busy.symm.trans hzero) hswept
  next hpos =>
    refine .done hleft hswept ?_
    rintro rfl
    exact absurd hleft.run.busy hpos

theorem cleanupDone_after (h : Here P c₀ st₀ k.weight k.inside c st) (hswept : Swept P c st) :
    After P c₀ st₀ st (c.cleanupDone k) := by
  cases k with
  | common => exact closeLeave_after h hswept
  | terminal ret =>
    obtain ⟨rfl, -⟩ := h.run.inside rfl
    exact backendStep_after h hswept

/-! ## The machines -/

/-- A stretch of the send machine inside its bracket. -/
theorem bracketSend_after {o : KlDgramSend.SOut} (hrun : Running P 1 false c st)
    (hm : KlDgramSend.Moved P.base c.send (sendFrames st) o)
    (htally : ∀ k, c.called st k = c₀.called st₀ k) (hcancelled : c₀.Cancelled → c.Cancelled)
    (hswept : P.base.abort → c.abort = true → c.send.aborted = true) :
    After P c₀ st₀ st (c.bracketSend o) := by
  have ho : Onward c (c.setSend o.state) := hrun.onward_setSend hm.onward
  have hrun' : Running P 1 false (c.setSend o.state) st := hrun.setSend hm.onward
  have hswept' : P.base.abort → c.abort = true → o.state.aborted = true :=
    fun hp ha => hm.onward.aborted (hswept hp ha)
  cases o with
  | done s r =>
    refine closeLeave_after ⟨hm.sound, hrun', fun k => ?_, fun hc => ho.cancelled (hcancelled hc)⟩
      fun hp ha => .inl (hswept' hp ha)
    rw [← htally k]
    cases k <;> rfl
  | call s f =>
    refine .call hm.sound (Running.push hrun' trivial nofun)
      (fun hp ha => .inl (hswept' hp ha)) (fun k => ?_) (fun hc => ho.cancelled (hcancelled hc))
        ⟨nofun, ?_⟩
    · rw [← htally k]
      cases k <;> simp [called, Frame.hook, Frame.isRetireRecv]
    · rintro hp g ⟨⟩ hprov hc
      obtain ⟨hdrained, haborted⟩ := hm.calls f rfl hprov
      rcases (hcancelled hc).2 with ha | hd
      · exact absurd ((hswept' hp ha).symm.trans (haborted hp)) (by simp)
      · exact hdrained hd

/-- A stretch of the receive machine inside its bracket. -/
theorem bracketRecv_after {o : KlDgramRecv.ROut} (h : Here P c₀ st₀ 1 false c st)
    (hswept : Swept P c st)
    (hr : KlDgramRecv.Onward c.recv o.state) : After P c₀ st₀ st (c.bracketRecv o) := by
  have hmoved : Here P c₀ st₀ 1 false (c.setRecv o.state) st := h.setRecv hr
  cases o with
  | done r v => exact closeLeave_after hmoved hswept
  | call r f => exact Here.call hmoved trivial nofun hswept rfl nofun

/-! ## Entry points -/

/-- The rest of a close that has stopped the receives. -/
theorem commonTail_after (h : Here P c₀ st₀ 1 false c st) (hstate : c.state ≠ .opened) :
    After P c₀ st₀ st c.commonTail := by
  unfold commonTail
  split
  next =>
    exact abortCleanup_after h hstate fun c' h' hswept => closeLeave_after h' hswept
  next hno => exact closeLeave_after h fun _ ha => absurd ha hno

/-- New sends are refused and the receive side is stopped. -/
theorem Here.startClosing (h : Here P c₀ st₀ 1 false c st) (hopen : c.state = .opened)
    (hr : r.stopped = true) : Here P c₀ st₀ 1 false (c.startClosing.setRecv r) st := by
  refine h.onward ⟨.inr ⟨hopen, rfl⟩, id, rfl, id, fun hc => absurd hopen hc, fun _ => rfl, ?_, rfl,
    rfl⟩
    h.send.close h.run.busy (fun _ => ⟨rfl, hr⟩) h.run.abandon fun k => by cases k <;> rfl
  exact fun hc => absurd hopen hc.1

/-- `kl_dgram_recv_stop` returns, or it is inside the disarm hook. -/
theorem stopRecv_cases (c : KlDgramClose) : ∃ r : KlDgramRecv, r.stopped = true ∧
    (c.startClosing.stopRecv = (c.startClosing.setRecv r).commonTail ∨
      c.startClosing.stopRecv = .call (c.startClosing.setRecv r).closeEnter .stop) := by
  have hstopped : c.recv.stop.state.stopped = true := KlDgramRecv.stop_stopped c.recv
  cases hstop : c.recv.stop with
  | done r v =>
    rw [hstop] at hstopped
    exact ⟨r, hstopped, .inl (by simp [stopRecv, hstop])⟩
  | call r f =>
    rw [hstop] at hstopped
    exact ⟨r, hstopped, .inr (by simp [stopRecv, hstop])⟩

/-- The first close stops the receives. -/
theorem stopRecv_after (h : Here P c₀ st₀ 1 false c st) (hopen : c.state = .opened) :
    After P c₀ st₀ st c.startClosing.stopRecv := by
  obtain ⟨r, hr, heq | heq⟩ := stopRecv_cases c
  · rw [heq]
    exact commonTail_after (h.startClosing hopen hr) (by simp)
  · have hhere := (h.startClosing hopen hr).closeEnter
    rw [heq]
    exact Here.call hhere (by simp [FrameOk]) nofun (fun _ _ => .inr trivial) rfl nofun

/-- `close_common` inside its own bracket. -/
theorem common_after (h : Here P c₀ st₀ 1 false c st) :
    After P c₀ st₀ st (if c.state = .opened then c.startClosing.stopRecv else c.commonTail) := by
  split
  next hopen => exact stopRecv_after h hopen
  next hstate => exact commonTail_after h hstate

/-- `kl_dgram_close_begin` and `kl_dgram_close_cancel`. -/
theorem closeCommon_after (h : Kept P c st) (abort : Bool) :
    After P c st st (c.closeCommon abort) := by
  unfold closeCommon
  split
  next => exact .done h.here h.swept h.settled
  next =>
    cases abort with
    | true => exact common_after h.here.closeEnter.setAbort
    | false => exact common_after h.here.closeEnter

/-- `kl_dgram_close_cancel` leaves the close abortive, or finds it over. -/
theorem closeCommon_cancelled (h : Kept P c st) : (c.closeCommon true).state.Cancelled := by
  have hbegun : ∀ {c'}, Here P c st 1 false c' st → c'.state ≠ .opened → c'.abort = true →
      c'.commonTail.state.Cancelled := by
    intro c' hc' hstate ha
    have hroot : Here P c' st 1 false c' st := ⟨hc'.send, hc'.run, fun _ => rfl, id⟩
    exact (commonTail_after hroot hstate).cancelled ⟨hstate, .inl ha⟩
  have henter : Here P c st 1 false c.closeEnter.setAbort st := h.here.closeEnter.setAbort
  unfold closeCommon
  split
  next hclosed => exact (h.run.closed hclosed).2
  next =>
    simp only [if_true]
    split
    next hopen =>
      obtain ⟨r, hr, heq | heq⟩ := stopRecv_cases c.closeEnter.setAbort
      · rw [heq]
        exact hbegun (henter.startClosing hopen hr) (by simp) rfl
      · rw [heq]
        exact ⟨by simp, .inl rfl⟩
    next hstate => exact hbegun henter hstate rfl

/-- `kl_dgram_close_abandon`. -/
theorem closeAbandon_after (h : Kept P c st) : After P c st st c.closeAbandon := by
  unfold closeAbandon
  split
  next => exact .done h.here h.swept h.settled
  next hstate =>
    -- the flag is set before `close_common` makes the close abortive
    have habort : Here P c st 1 false c.closeEnter.setAbort st := h.here.closeEnter.setAbort
    have hboth : Here P c st 1 false c.setAbandon.closeEnter.setAbort st :=
      habort.onward { Onward.refl c.closeEnter.setAbort with abandon := fun _ => rfl } h.send
        habort.run.busy habort.run.closing (fun _ => rfl) fun k => by cases k <;> rfl
    unfold closeCommon
    rw [if_neg (show c.setAbandon.state ≠ .closed from hstate)]
    exact common_after hboth

/-- `kl_dgram_close_retry`. -/
theorem closeRetry_after (h : Kept P c st) : After P c st st c.closeRetry := by
  unfold closeRetry
  split
  · exact .done h.here h.swept h.settled
  · exact closeLeave_after h.here.closeEnter h.swept

/-- A backend reports the class of an operation. -/
theorem settle_after (h : Kept P c st) (kind : KlDgramOpKind) (v : KlDgramRetireResult) :
    After P c st st (.done (c.settle kind v) ret) := by
  unfold settle
  split
  next hpend =>
    cases kind with
    | recv =>
      exact .done (h.here.onward { Onward.refl c with recvClass := fun hne => absurd hpend hne }
        h.send h.run.busy h.run.closing h.run.abandon fun k => by cases k <;> rfl) h.swept h.settled
    | send =>
      exact .done (h.here.onward { Onward.refl c with }
        h.send h.run.busy h.run.closing h.run.abandon fun k => by cases k <;> rfl) h.swept h.settled
  next => exact .done h.here h.swept h.settled

/-! ## The classifier -/

/-- The joined result says what the classes are. -/
theorem joined_faithful (hrecv : c.opClass .recv ≠ .pending)
    (hsend : c.opClass .send ≠ .pending) (hq : q = true ↔ ∃ kind, c.opClass kind = .quarantined) :
    c.Faithful (joined q te) := by
  cases q with
  | true => exact ⟨⟨fun _ => hq.mp rfl, fun _ => rfl⟩, nofun⟩
  | false =>
    have hnone : ∀ kind, c.opClass kind ≠ .quarantined := fun kind hk =>
      by simpa using hq.mpr ⟨kind, hk⟩
    have hretired : ∀ kind, c.opClass kind = .retired := by
      intro kind
      have hpend : c.opClass kind ≠ .pending := by
        cases kind with
        | recv => exact hrecv
        | send => exact hsend
      have hquar := hnone kind
      cases hk : c.opClass kind with
      | retired => rfl
      | pending => exact absurd hk hpend
      | quarantined => exact absurd hk hquar
    refine ⟨⟨fun hr => ?_, fun ⟨kind, hk⟩ => absurd hk (hnone kind)⟩, fun _ => hretired⟩
    cases te <;> cases hr

/-- What a hook of the classifier must say for the result to be right. -/
def Honest (c : KlDgramClose) : Frame → Answer → Prop
  | .classify kind _ _ _ _, a => a.retire = c.opClass kind
  | _, _ => True

/-- An abandoned close does not ask while one operation is quarantined and the other one
is pending. -/
def Unmixed (c : KlDgramClose) : Frame → Prop
  | .classify _ _ _ true _ =>
    (c.opClass .recv = .pending → c.opClass .send ≠ .quarantined) ∧
    (c.opClass .send = .pending → c.opClass .recv ≠ .quarantined)
  | _ => True

/-- The classifier says PENDING. -/
def Pended : Frame → Answer → Prop
  | .classify _ _ _ _ _, a => a.retire = .pending
  | _, _ => False

/-- The classification goes on with the other operation. -/
theorem joinNext_after (h : Here P c₀ st₀ 0 true c [])
    (hswept : Swept P c []) {q₀ : Bool} (hcl : Classifying P c kind q₀ abandoned)
    (hq : P.honest → c.opClass kind ≠ .pending ∧
      (q = true ↔ q₀ = true ∨ c.opClass kind = .quarantined)) :
    After P c₀ st₀ [] (c.joinNext q te abandoned ret kind) := by
  cases kind with
  | recv =>
    refine Here.call h ⟨hcl.state, hcl.backend, hcl.installed, hcl.abandon, hcl.gate, fun hp => ?_⟩
      (fun _ => rfl) hswept rfl nofun
    have hnone : q₀ = false := hcl.joining hp
    obtain ⟨hne, hiff⟩ := hq hp
    exact ⟨hne, by simpa [hnone] using hiff⟩
  | send =>
    refine conclude_after h hcl.backend hswept hcl.abandon hcl.gate (fun hn => ?_) fun hp => .inr ?_
    · cases q <;> cases te <;> cases hn
    obtain ⟨hrecv, hrecvq⟩ := hcl.joining hp
    obtain ⟨hsend, hiff⟩ := hq hp
    refine joined_faithful hrecv hsend (hiff.trans ⟨?_, ?_⟩)
    · rintro (hq₀ | hs)
      · exact ⟨.recv, hrecvq.mp hq₀⟩
      · exact ⟨.send, hs⟩
    · rintro ⟨kind, hk⟩
      cases kind with
      | recv => exact .inl (hrecvq.mpr hk)
      | send => exact .inr hk

/-- The classifier answers for one operation. -/
theorem classified_after
    (h : Here P c₀ st₀ 0 true c []) (hswept : Swept P c []) (hcl : Classifying P c kind q abandoned)
    (hhonest : P.honest → Honest c (.classify kind q te abandoned ret) a ∧
      Unmixed c (.classify kind q te abandoned ret))
    (hasked : a.retire = .pending → P.asked) :
    After P c₀ st₀ [] (c.classified kind q te abandoned ret a) := by
  unfold classified
  split
  next hpend =>
    refine conclude_after h hcl.backend hswept hcl.abandon hcl.gate (fun _ => hasked hpend)
      fun hp => .inl ⟨rfl, ?_⟩
    rintro rfl
    obtain ⟨hsaid, hmixed⟩ := hhonest hp
    have hkind : c.opClass kind = .pending := hsaid.symm.trans hpend
    refine ⟨⟨nofun, ?_⟩, nofun⟩
    rintro ⟨other, hother⟩
    cases kind <;> cases other
    · simp [hkind] at hother
    · exact absurd hother (hmixed.1 hkind)
    · exact absurd hother (hmixed.2 hkind)
    · simp [hkind] at hother
  next hret =>
    refine joinNext_after h hswept hcl fun hp => ?_
    have hkind : c.opClass kind = .retired := (hhonest hp).1.symm.trans hret
    simp [hkind]
  next hquar =>
    refine joinNext_after h hswept hcl fun hp => ?_
    have hkind : c.opClass kind = .quarantined := (hhonest hp).1.symm.trans hquar
    simp [hkind]

/-! ## The stretches -/

/-- A call meets the conditions of `P`. -/
structure CallMet (P : Scope) (c : KlDgramClose) (op : Op) : Prop where
  send : ∀ o, op = .send o → KlDgramSend.CallMet P.base c.send o.op
  swept : P.base.abort → ∀ o, op = .send o → c.abort = true → c.send.aborted = true

/-- The return of a hook meets the conditions of `P`. -/
structure RetMet (P : Scope) (c : KlDgramClose) (f : Frame) (a : Answer) : Prop where
  send : ∀ g, f = .send g → KlDgramSend.RetMet P.base c.send g a.send
  honest : P.honest → Honest c f a ∧ Unmixed c f
  asked : Pended f a → P.asked

theorem enterSend_after (h : Kept P c st) {op : SendOp} (hm : CallMet P c (.send op)) :
    After P c st st (c.enterSend op) := by
  have hmoved := KlDgramSend.enter_moved h.send (hm.send op rfl)
  unfold enterSend
  split
  next =>
    have henter := h.here.closeEnter
    exact bracketSend_after henter.run hmoved henter.tally id fun hp => hm.swept hp op rfl
  next hplain =>
    obtain ⟨s, v, heq, hsame⟩ := SendOp.plain (Bool.eq_false_of_not_eq_true hplain)
    rw [heq] at hmoved ⊢
    have ho : Onward c (c.setSend s) := h.run.onward_setSend hmoved.onward
    refine .done ⟨hmoved.sound, h.run.setSend hmoved.onward, fun k => by cases k <;> rfl,
      ho.cancelled⟩ ?_ ?_
    · intro hp ha
      exact (h.swept hp ha).imp_left hmoved.onward.aborted
    · intro hst hc
      obtain ⟨hcount, hflight⟩ :=
        hsame (h.run.closing (by simp [show c.state = .closing from hc])).1
      have hsettled := h.settled hst hc
      simpa [sendDrained, fullyRetired, hcount, hflight] using hsettled

theorem enterRecv_after (h : Kept P c st) (op : KlDgramRecv.Op) :
    After P c st st (c.enterRecv op) := by
  have honward : KlDgramRecv.Onward c.recv (c.recv.enter op).state := KlDgramRecv.enter_onward op
  unfold enterRecv
  split
  next => exact bracketRecv_after h.here.closeEnter h.swept honward
  next hplain =>
    obtain ⟨r, v, heq, hsame⟩ := recv_plain (Bool.eq_false_of_not_eq_true hplain)
    rw [heq] at honward ⊢
    refine .done (h.here.setRecv honward) h.swept fun hst hc => ?_
    have hsettled := h.settled hst hc
    simpa [sendDrained, fullyRetired, hsame] using hsettled

theorem enter_after (h : Kept P c st) {op : Op} (hm : CallMet P c op) :
    After P c st st (machine.enter op c) := by
  cases op with
  | send op => exact enterSend_after h hm
  | recv op => exact enterRecv_after h op
  | beginClose => exact closeCommon_after h false
  | cancel => exact closeCommon_after h true
  | abandon => exact closeAbandon_after h
  | retry => exact closeRetry_after h
  | classify kind v => exact settle_after h kind v
  | hold =>
    have henter := h.here.closeEnter
    refine .call henter.send (Running.push henter.run trivial nofun) h.swept (fun k => ?_) id
      (.other nofun nofun)
    cases k <;> simp [called, Frame.hook, Frame.isRetireRecv]

theorem afterHook_after (h : Kept P c (f :: st)) (hm : RetMet P c f a) :
    After P c (f :: st) st (machine.resume f a c) := by
  have hok := h.run.frames f List.mem_cons_self
  have hground := h.run.grounded.1
  cases f with
  | send g =>
    have hmoved := KlDgramSend.afterHook_moved h.send (hm.send g rfl)
    refine bracketSend_after h.run.pop hmoved (fun k => ?_) id fun hp ha => ?_
    · cases k <;> simp [called, Frame.isRetireRecv]
    · rcases h.swept hp ha with hs | hw
      · exact hs
      · exact False.elim hw
  | recv g =>
    exact bracketRecv_after (h.resume rfl rfl) h.swept (KlDgramRecv.afterHook_onward g a.recv)
  | stop =>
    have hleft : Here P c (.stop :: st) 1 false c.left st := Here.left (h.resume rfl rfl)
    exact commonTail_after (hleft.setRecv ⟨id, fun _ _ => rfl⟩) hok
  | cancelSend k =>
    have hres : Here P c (.cancelSend k :: st) k.weight k.inside c st := by
      cases k with
      | common => exact h.resume rfl rfl
      | terminal ret => exact h.resume rfl rfl
    show After P c (.cancelSend k :: st) st (c.requestRecv k (·.cleanupDone k))
    exact requestRecv_after hres h.swept (cleanupDone_after hres h.swept)
  | cancelRecv k =>
    have hres : Here P c (.cancelRecv k :: st) k.weight k.inside c st := by
      cases k with
      | common => exact h.resume rfl rfl
      | terminal ret => exact h.resume rfl rfl
    exact cleanupDone_after hres h.swept
  | retireRecv ret =>
    obtain rfl := hground rfl
    refine closeBackend_after h.send h.run.pop h.swept hok.2 (fun k hk => ?_) ?_ id
    · cases k <;> first | rfl | exact absurd rfl hk
    · simp [called, Frame.isRetireRecv]
  | backend ret =>
    obtain rfl := hground rfl
    exact terminalResult_after (h.resume rfl rfl) h.swept (.inl hok.2)
  | classify kind q te abandoned ret =>
    obtain rfl := hground rfl
    exact classified_after (h.resume rfl rfl) h.swept hok hm.honest hm.asked
  | onClose res ret =>
    have hclosed : c.state = .closed := hok
    refine .done (h.resume rfl rfl) h.swept fun _ hc => ?_
    simp [hclosed] at hc
  | held => exact closeLeave_after (h.resume rfl rfl) h.swept
  | fault => exact False.elim hok

end KlDgramClose
