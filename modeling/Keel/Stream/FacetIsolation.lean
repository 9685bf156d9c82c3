-- SUMMARY: What the code of one facet can do to the other two.
import Keel.Stream.Machine

/-!
# Facets

The read machinery never touches the write facet and the write machinery never
touches the read facet. Both reach the close facet in two ways only: posting an
operation clears its cancel request, and a retired operation asks
`stream_close_finalize` to detach. `FacetOut` says this once for every function.
-/

open Reentrant

inductive Facet where
  | write
  | read
  | close
deriving DecidableEq, Repr

/-- The facet whose hook is running. -/
def Frame.facet : Frame → Facet
  | .writeDirect _ | .flushPush | .submit _ _ | .flushWritable _ | .completeWritable _ => .write
  | .arm _ | .deliver _ _ _ | .pauseDisarm | .closeDisarm _ => .read
  | .cancelRecv | .cancelSend | .onClose _ => .close

/-- The frames of `stream_close_common`. -/
def Frame.inCommon : Frame → Bool
  | .cancelRecv | .cancelSend | .closeDisarm .closeCommon => true
  | _ => false

/-- `kl_stream_on_recv` notifies after it armed again. -/
def ArmK.notifies : ArmK → Bool
  | .plain => false
  | .onRecv => true

/-- `kl_stream_on_write_complete` notifies after it pumped. -/
def SendK.notifies : SendK → Bool
  | .write _ => false
  | .complete => true

/-- The code after the hook notifies retirement. -/
def Frame.notifies : Frame → Bool
  | .flushPush | .flushWritable _ | .completeWritable _ => true
  | .cancelRecv | .cancelSend | .closeDisarm .closeCommon => true
  | .submit _ k => k.notifies
  | .arm k | .deliver _ _ k => k.notifies
  | .writeDirect _ | .pauseDisarm | .closeDisarm .readClose | .onClose _ => false

/-- The operation itself notifies retirement. -/
def Op.notifies : Op → Bool
  | .flush | .onWriteComplete _ | .onRecv _ _ | .closeBegin | .cancel => true
  | .write _ | .readStart | .pause | .resume | .readClose => false

def Op.facet : Op → Facet
  | .write _ | .flush | .onWriteComplete _ => .write
  | .readStart | .onRecv _ _ | .pause | .resume | .readClose => .read
  | .closeBegin | .cancel => .close

/-- What the call of a hook does to the close facet. -/
def KlStreamClose.post (c : KlStreamClose) : Frame → KlStreamClose
  | .arm _ => c.freshRecv
  | .submit _ _ => c.freshSend
  | _ => c

/-- The fields an initializer sets and the machinery only reads stay, and a closed
read side stays closed. -/
structure KlStreamRead.Keeps (r r' : KlStreamRead) : Prop where
  readCap : r'.readCap = r.readCap
  readDisarm : r'.readDisarm = r.readDisarm
  readCompletionMode : r'.readCompletionMode = r.readCompletionMode
  readInited : r'.readInited = r.readInited
  readClosed : r.readClosed = true → r'.readClosed = true

/-- The fields an initializer sets and the machinery only reads stay, and a failed
write side stays failed. -/
structure KlStreamWrite.Keeps (w w' : KlStreamWrite) : Prop where
  wqInited : w'.wqInited = w.wqInited
  submitFn : w'.submitFn = w.submitFn
  submitCopying : w'.submitCopying = w.submitCopying
  onWritable : w'.onWritable = w.onWritable
  queue : w.wq.Keeps w'.wq
  wqErr : w.wqErr = true → w'.wqErr = true

theorem KlStreamRead.Keeps.rfl {r : KlStreamRead} : r.Keeps r := by
  constructor <;> simp

theorem KlStreamWrite.Keeps.rfl {w : KlStreamWrite} : w.Keeps w := by
  constructor <;> simp [KlDrain.Keeps.rfl]

theorem KlStreamRead.Keeps.trans {a b c : KlStreamRead} (h : a.Keeps b) (h' : b.Keeps c) :
    a.Keeps c where
  readCap := h'.readCap.trans h.readCap
  readDisarm := h'.readDisarm.trans h.readDisarm
  readCompletionMode := h'.readCompletionMode.trans h.readCompletionMode
  readInited := h'.readInited.trans h.readInited
  readClosed hc := h'.readClosed (h.readClosed hc)

theorem KlStreamWrite.Keeps.trans {a b c : KlStreamWrite} (h : a.Keeps b) (h' : b.Keeps c) :
    a.Keeps c where
  wqInited := h'.wqInited.trans h.wqInited
  submitFn := h'.submitFn.trans h.submitFn
  submitCopying := h'.submitCopying.trans h.submitCopying
  onWritable := h'.onWritable.trans h.onWritable
  queue := h.queue.trans h'.queue
  wqErr he := h'.wqErr (h.wqErr he)

namespace KlStream

/-- `s'` differs from `s` in the facet `F` and in the close facet only. -/
def Within : Facet → KlStream → KlStream → Prop
  | .write, s, s' => s'.r = s.r ∧ s.w.Keeps s'.w
  | .read, s, s' => s'.w = s.w ∧ s.r.Keeps s'.r
  | .close, s, s' => s'.w = s.w ∧ s'.r = s.r

variable {s s' : KlStream} {f : Frame} {F : Facet} {c : KlStreamClose}

theorem Within.refl : Within F s s := by
  cases F with
  | write => exact ⟨rfl, .rfl⟩
  | read => exact ⟨rfl, .rfl⟩
  | close => exact ⟨rfl, rfl⟩

/-- The read facet changes once more. -/
theorem Within.read {r : KlStreamRead} (h : Within .read s s') (hr : s'.r.Keeps r) :
    Within .read s { s' with r, c } :=
  ⟨h.1, h.2.trans hr⟩

/-- The write facet changes once more. -/
theorem Within.write {w : KlStreamWrite} (h : Within .write s s') (hw : s'.w.Keeps w) :
    Within .write s { s' with w, c } :=
  ⟨h.1, h.2.trans hw⟩

/-- The ways a stretch of the code of facet `F` can end. Code that does not notify
retirement (`n = false`) never detaches the stream. -/
inductive FacetOut (F : Facet) (n : Bool) (s : KlStream) : SOut → Prop where
  | done {s' : KlStream} (ret : Ret) : Within F s s' → s'.c = s.c → FacetOut F n s (.done s' ret)
  | call {s' : KlStream} (f : Frame) : Within F s s' →
      f.facet = F ∧ f.facet ≠ .close ∧ f.inCommon = false → s'.c = s.c.post f →
      FacetOut F n s (.call s' f)
  | retire {s' : KlStream} (ret : Ret) : Within F s s' → s'.c = s.c → n = true →
      FacetOut F n s (s'.closeFinalize ret)

section

variable {n : Bool} {r : Int}

/-- Code that notifies a retirement may detach the stream. -/
theorem FacetOut.onRetire (ret : Ret) (hw : Within F s s') (hc : s'.c = s.c) :
    FacetOut F true s (s'.onRetire ret) := by
  unfold KlStream.onRetire
  split
  · exact .retire ret hw hc rfl
  · exact .done ret hw hc

/-! ## Read functions -/

section

variable {k : ArmK} (hw : Within .read s s') (hc : s'.c = s.c)
include hw hc

theorem FacetOut.armRet : FacetOut .read k.notifies s (s'.armRet r k) := by
  cases k with
  | plain => exact .done _ hw hc
  | onRecv =>
    simp only [KlStream.armRet]
    split
    · exact .onRetire _ hw hc
    · exact .done _ hw hc

/-- The loop that arms receives touches the read facet only. -/
theorem FacetOut.armLoop : FacetOut .read k.notifies s (s'.armLoop k) := by
  unfold KlStream.armLoop
  split
  · exact .armRet hw hc
  · exact .call _ (hw.read ⟨rfl, rfl, rfl, rfl, id⟩) ⟨rfl, nofun,
      rfl⟩ (by simp [KlStreamClose.post, hc])

theorem FacetOut.streamArm : FacetOut .read k.notifies s (s'.streamArm k) := by
  unfold KlStream.streamArm
  split
  · exact .armRet (hw.read ⟨rfl, rfl, rfl, rfl, id⟩) hc
  · exact .armLoop hw hc

end

/-- The return of `read_arm`. -/
theorem FacetOut.armed (s : KlStream) (rc : Int) (k : ArmK) :
    FacetOut .read k.notifies s (s.armed rc k) := by
  unfold KlStream.armed
  split_ifs
  · exact .armLoop (Within.refl.read ⟨rfl, rfl, rfl, rfl, id⟩) rfl
  · exact .armRet (Within.refl.read ⟨rfl, rfl, rfl, rfl, id⟩) rfl
  · exact .armRet (Within.refl.read ⟨rfl, rfl, rfl, rfl, fun _ => rfl⟩) rfl
  · exact .armRet (Within.refl.read ⟨rfl, rfl, rfl, rfl, id⟩) rfl

/-- A delivery, and the re-arm behind it. -/
theorem FacetOut.deliverAndContinue {len : Nat} {ok : Bool} {k : ArmK} (hw : Within .read s s')
    (hc : s'.c = s.c) : FacetOut .read n s (s'.deliverAndContinue len ok k) := by
  unfold KlStream.deliverAndContinue
  split
  · exact .call _ (hw.read ⟨rfl, rfl, rfl, rfl, fun _ => rfl⟩) ⟨rfl, nofun, rfl⟩ hc
  · exact .call _ hw ⟨rfl, nofun, rfl⟩ hc

/-- The return of the deliver callback. -/
theorem FacetOut.delivered (s : KlStream) (ok : Bool) (k : ArmK) :
    FacetOut .read k.notifies s (s.delivered ok k) := by
  unfold KlStream.delivered
  split_ifs
  · exact .armRet .refl rfl
  · exact .armRet .refl rfl
  · exact .armRet .refl rfl
  · exact .streamArm .refl rfl

theorem FacetOut.readStart (s : KlStream) : FacetOut .read false s s.readStart := by
  unfold KlStream.readStart
  split_ifs
  · exact .done _ .refl rfl
  · exact .done _ .refl rfl
  · exact .streamArm (k := .plain) .refl rfl

/-- A receive that completes. -/
theorem FacetOut.onRecv (s : KlStream) (len : Nat) (ok : Bool) :
    FacetOut .read true s (s.onRecv len ok) := by
  unfold KlStream.onRecv
  split
  · exact .done _ .refl rfl
  split
  · exact .done _ .refl rfl
  split
  · exact .onRetire _ (Within.refl.read ⟨rfl, rfl, rfl, rfl, id⟩) rfl
  split
  · exact .onRetire _ (Within.refl.read ⟨rfl, rfl, rfl, rfl, fun _ => rfl⟩) rfl
  · split
    · exact .onRetire _ (Within.refl.read ⟨rfl, rfl, rfl, rfl, id⟩) rfl
    · exact .deliverAndContinue (Within.refl.read ⟨rfl, rfl, rfl, rfl, id⟩) rfl

theorem FacetOut.pause (s : KlStream) : FacetOut .read false s s.pause := by
  unfold KlStream.pause
  split_ifs
  · exact .done _ .refl rfl
  · exact .call _ (Within.refl.read ⟨rfl, rfl, rfl, rfl, id⟩) ⟨rfl, nofun, rfl⟩ rfl
  · exact .done _ (Within.refl.read ⟨rfl, rfl, rfl, rfl, id⟩) rfl

theorem FacetOut.resume (s : KlStream) : FacetOut .read false s s.resume := by
  unfold KlStream.resume
  split_ifs
  · exact .done _ .refl rfl
  · exact .done _ (Within.refl.read ⟨rfl, rfl, rfl, rfl, id⟩) rfl
  · exact .deliverAndContinue (Within.refl.read ⟨rfl, rfl, rfl, rfl, id⟩) rfl
  · exact .done _ (Within.refl.read ⟨rfl, rfl, rfl, rfl, id⟩) rfl
  · exact .streamArm (k := .plain) (Within.refl.read ⟨rfl, rfl, rfl, rfl, id⟩) rfl

theorem FacetOut.readClose (s : KlStream) : FacetOut .read false s (s.readClose .readClose) := by
  unfold KlStream.readClose
  split_ifs
  · exact .done _ .refl rfl
  · exact .call _ (Within.refl.read ⟨rfl, rfl, rfl, rfl, fun _ => rfl⟩) ⟨rfl, nofun, rfl⟩ rfl
  · exact .done _ (Within.refl.read ⟨rfl, rfl, rfl, rfl, fun _ => rfl⟩) rfl
  · exact .done _ (Within.refl.read ⟨rfl, rfl, rfl, rfl, fun _ => rfl⟩) rfl

/-! ## Write functions -/

section

variable {k : SendK} (hw : Within .write s s') (hc : s'.c = s.c)
include hw hc

/-- The writable edge behind a completion. -/
theorem FacetOut.completeTail : FacetOut .write true s (s'.completeTail r) := by
  unfold KlStream.completeTail
  split
  · exact .call _ (hw.write ⟨rfl, rfl, rfl, rfl, .rfl, id⟩) ⟨rfl, nofun, rfl⟩ hc
  · exact .onRetire _ hw hc

theorem FacetOut.pumpRet : FacetOut .write k.notifies s (s'.pumpRet r k) := by
  cases k with
  | write data =>
    simp only [KlStream.pumpRet]
    split
    · exact .done _ hw hc
    · exact .done _ hw hc
  | complete => exact .completeTail hw hc

/-- The pump submits what is queued, within the write facet. -/
theorem FacetOut.pumpCompletion : FacetOut .write k.notifies s (s'.pumpCompletion k) := by
  unfold KlStream.pumpCompletion
  split_ifs
  · exact .pumpRet hw hc
  · exact .pumpRet hw hc
  · exact .pumpRet hw hc
  · exact .pumpRet hw hc
  · exact .call _ (hw.write ⟨rfl, rfl, rfl, rfl, .rfl, id⟩) ⟨rfl, nofun,
      rfl⟩ (by simp [KlStreamClose.post, hc])

end

/-- Copying the rest of a direct write leaves the configuration alone. -/
theorem copied_keeps (w : KlStreamWrite) (len : Nat) : w.Keeps (w.submitReturned.copied len) := by
  constructor <;> simp +contextual
  cases w.inflightCopying with
  | true => exact .consume _ _
  | false => exact .rfl

theorem sendRetired_keeps (w : KlStreamWrite) : w.Keeps w.sendRetired := by
  constructor <;> simp +contextual
  cases w.inflightCopying with
  | true => exact .rfl
  | false => exact .consume _ _

/-- The return of `submit_fn`. -/
theorem FacetOut.submitted (s : KlStream) (len : Nat) (r : Int) (k : SendK) :
    FacetOut .write k.notifies s (s.submitted len r k) := by
  have hcopied : Within .write s { s with w := s.w.submitReturned.copied len } :=
    Within.refl.write (copied_keeps s.w len)
  have hclear : Within .write s { s with w := (s.w.submitReturned.copied len).clearInline } :=
    hcopied.write ⟨rfl, rfl, rfl, rfl, .rfl, id⟩
  unfold KlStream.submitted
  split_ifs
  · exact .pumpRet (Within.refl.write ⟨rfl, rfl, rfl, rfl, .rfl, fun _ => rfl⟩) rfl
  · exact .pumpRet hcopied rfl
  · exact .pumpRet (hclear.write ⟨rfl, rfl, rfl, rfl, .rfl, fun _ => rfl⟩) rfl
  · exact .pumpCompletion (hclear.write (sendRetired_keeps _)) rfl

/-- The end of a write that reserved its bytes. -/
theorem FacetOut.writeReserved {ds : KlDrainWriteStatus} (hw : Within .write s s')
    (hc : s'.c = s.c) : FacetOut .write false s (s'.writeReserved ds) := by
  cases ds with
  | accepted => exact .done _ (hw.write ⟨rfl, rfl, rfl, rfl, .rfl, id⟩) hc
  | wouldBlock => exact .done _ (hw.write ⟨rfl, rfl, rfl, rfl, .rfl, id⟩) hc
  | tooLarge => exact .done _ hw hc
  | werror => exact .done _ (hw.write ⟨rfl, rfl, rfl, rfl, .rfl, fun _ => rfl⟩) hc

/-- A queue that `wq` became. -/
theorem Within.queue {wq : KlDrain} (h : s.w.wq.Keeps wq) :
    Within .write s { s with w := s.w.setQueue wq } :=
  Within.refl.write (by constructor <;> simp [h])

/-- A write never detaches the stream. -/
theorem FacetOut.write (s : KlStream) (src : SrcBuf) : FacetOut .write false s (s.write src) := by
  unfold KlStream.write
  split
  · exact .done _ .refl rfl
  split
  · exact .done _ .refl rfl
  split
  · exact .done _ .refl rfl
  split
  · exact .done _ .refl rfl
  split
  · exact .done _ .refl rfl
  cases src with
  | null n => exact .done _ .refl rfl
  | bytes data =>
    dsimp only
    split
    -- completion mode
    · split
      · next h =>
          exact .done _ ((Within.queue (.reserveBuffer h)).write ⟨rfl, rfl, rfl, rfl, .rfl, id⟩) rfl
      · next h =>
        exact .pumpCompletion (k := .write data)
          ((Within.queue (.reserveBuffer h)).write ⟨rfl, rfl, rfl, rfl, .rfl, id⟩) rfl
      · next h => exact .done _ (Within.queue (.reserveBuffer h)) rfl
    -- readiness mode
    · split
      · next h => exact .writeReserved (.queue (.reserveWrite_status h)) rfl
      · next h => exact .call _ (.queue (.reserveWrite_direct h)) ⟨rfl, nofun, rfl⟩ rfl

/-- A flush that emptied the queue reports the edge. -/
theorem FacetOut.flushEdge (hw : Within .write s s') (hc : s'.c = s.c) :
    FacetOut .write true s (s'.flushEdge r) := by
  unfold KlStream.flushEdge
  split_ifs
  · exact .call _ (hw.write ⟨rfl, rfl, rfl, rfl, .rfl, id⟩) ⟨rfl, nofun, rfl⟩ hc
  · exact .onRetire _ hw hc
  · exact .done _ hw hc

theorem FacetOut.flushTail (hw : Within .write s s') (hc : s'.c = s.c) :
    FacetOut .write true s (s'.flushTail r) := by
  unfold KlStream.flushTail
  split
  · exact .flushEdge (hw.write ⟨rfl, rfl, rfl, rfl, .rfl, fun _ => rfl⟩) hc
  · exact .flushEdge hw hc

theorem FacetOut.flush (s : KlStream) : FacetOut .write true s s.flush := by
  unfold KlStream.flush
  split_ifs
  · exact .done _ .refl rfl
  · exact .done _ .refl rfl
  · exact .flushTail .refl rfl
  · exact .flushTail .refl rfl
  · exact .call _ .refl ⟨rfl, nofun, rfl⟩ rfl

/-- The return of `push_fn`. -/
theorem FacetOut.flushPushed (s : KlStream) (n : Int) :
    FacetOut .write true s (s.flushPushed n) := by
  unfold KlStream.flushPushed
  split
  · next h => exact .call _ (.queue (.pushSent_again h)) ⟨rfl, nofun, rfl⟩ rfl
  · next h => exact .flushTail (.queue (.pushSent_stop h)) rfl

/-- A send that completes. -/
theorem FacetOut.onWriteComplete (s : KlStream) (ok : Bool) :
    FacetOut .write true s (s.onWriteComplete ok) := by
  unfold KlStream.onWriteComplete
  split
  · exact .done _ .refl rfl
  split
  · exact .done _ .refl rfl
  split
  · exact .done _ (Within.refl.write ⟨rfl, rfl, rfl, rfl, .rfl, id⟩) rfl
  · split
    · exact .completeTail (Within.refl.write ⟨rfl, rfl, rfl, rfl, .rfl, fun _ => rfl⟩) rfl
    · exact .pumpCompletion (k := .complete) (Within.refl.write (sendRetired_keeps _)) rfl

end

/-- Every operation but the two that close. -/
theorem FacetOut.enter (s : KlStream) {op : Op} (h : op.facet ≠ .close) :
    FacetOut op.facet op.notifies s (enter op s) := by
  cases op with
  | write src => exact .write s src
  | flush => exact .flush s
  | onWriteComplete ok => exact .onWriteComplete s ok
  | readStart => exact .readStart s
  | onRecv len ok => exact .onRecv s len ok
  | pause => exact .pause s
  | resume => exact .resume s
  | readClose => exact .readClose s
  | closeBegin => exact absurd rfl h
  | cancel => exact absurd rfl h

/-- Every hook but those that `stream_close_common` goes on after. -/
theorem FacetOut.afterHook (s : KlStream) (v : Int) (h : f.inCommon = false) :
    FacetOut f.facet f.notifies s (afterHook f v s) := by
  cases f with
  | writeDirect data => exact .writeReserved (.queue (.reserveWriteSent _ _ _)) rfl
  | flushPush => exact .flushPushed s v
  | submit len k => exact .submitted s len v k
  | flushWritable r => exact .onRetire _ (Within.refl.write ⟨rfl, rfl, rfl, rfl, .rfl, id⟩) rfl
  | completeWritable r => exact .onRetire _ (Within.refl.write ⟨rfl, rfl, rfl, rfl, .rfl, id⟩) rfl
  | arm k => exact .armed s v k
  | deliver len ok k => exact .delivered s ok k
  | pauseDisarm => exact .done _ (Within.refl.read ⟨rfl, rfl, rfl, rfl, id⟩) rfl
  | closeDisarm k =>
    cases k with
    | readClose => exact .done _ (Within.refl.read ⟨rfl, rfl, rfl, rfl, id⟩) rfl
    | closeCommon => cases h
  | cancelRecv => cases h
  | cancelSend => cases h
  | onClose r => exact .done _ .refl rfl

/-! ## Detaching -/

/-- `stream_close_finalize` does nothing, or every condition for detaching holds. -/
theorem closeFinalize_cases (s : KlStream) (ret : Ret) : (s.closeFinalize ret = .done s ret ∧
      (s.c.closeState = .closing → s.c.inCloseCancel = 0 → s.w.inWritable = 0 →
        s.fullyRetired = false)) ∨
    (s.closeFinalize ret = s.detach ret ∧ s.c.closeState = .closing ∧ s.c.inCloseCancel = 0 ∧
      s.w.inWritable = 0 ∧ s.fullyRetired = true) := by
  by_cases hs : s.c.closeState = .closing
  · by_cases hc : s.c.inCloseCancel = 0
    · by_cases hw : s.w.inWritable = 0
      · cases hr : s.fullyRetired with
        | true => exact .inr ⟨by simp [closeFinalize, hs, hc, hw, hr], hs, hc, hw, rfl⟩
        | false => exact .inl ⟨by simp [closeFinalize, hs, hc, hw, hr], fun _ _ _ => rfl⟩
      · exact .inl ⟨by simp [closeFinalize, hs, hc, hw], fun _ _ h => absurd h hw⟩
    · exact .inl ⟨by simp [closeFinalize, hs, hc], fun _ h => absurd h hc⟩
  · exact .inl ⟨by simp [closeFinalize, hs], fun h => absurd h hs⟩

/-- The only hook that finalization calls is `on_close`. -/
theorem closeFinalize_hook (s : KlStream) (ret : Ret) :
    (s.closeFinalize ret).hook = none ∨ (s.closeFinalize ret).hook = some (.onClose ret) := by
  obtain ⟨h, -⟩ | ⟨h, -⟩ := closeFinalize_cases s ret
  · exact .inl (by rw [h]; rfl)
  · rw [h, detach]
    split
    · exact .inr rfl
    · exact .inl rfl

/-- Code of the close facet ran: the other facets are as they were, a cancel hook
is called for an operation in flight, and `on_close` when nothing holds the close. -/
structure CloseOnly (s : KlStream) (o : SOut) : Prop where
  w : o.state.w = s.w
  r : o.state.r = s.r
  facet : ∀ f, o.hook = some f → f.facet = .close
  recv : o.hook = some .cancelRecv → s.r.recvInflight = true
  send : o.hook = some .cancelSend → s.w.sendInflight = true
  detached : ∀ ret, o.hook = some (.onClose ret) →
    o.state.c.closeState = .closed ∧ o.state.c.inCloseCancel = 0 ∧ s.w.inWritable = 0 ∧
      o.state.fullyRetired = true

section

theorem CloseOnly.done {ret : Ret} (hw : s'.w = s.w) (hr : s'.r = s.r) :
    CloseOnly s (.done s' ret) := by
  constructor <;> simp [hw, hr]

/-- The finalization leaves both other facets as they are. -/
theorem CloseOnly.closeFinalize (ret : Ret) (hw : s'.w = s.w) (hr : s'.r = s.r) :
    CloseOnly s (s'.closeFinalize ret) := by
  obtain ⟨heq, -⟩ | ⟨heq, hs, hc, hi, hret⟩ := closeFinalize_cases s' ret
  · rw [heq]
    exact .done hw hr
  rw [heq, detach]
  split
  · constructor
    · exact hw
    · exact hr
    · simp [Frame.facet]
    · simp
    · simp
    · intro ret' _
      exact ⟨rfl, hc, hw ▸ hi, hret⟩
  · exact .done hw hr

theorem CloseOnly.onRetire (ret : Ret) (hw : s'.w = s.w) (hr : s'.r = s.r) :
    CloseOnly s (s'.onRetire ret) := by
  unfold KlStream.onRetire
  split
  · exact .closeFinalize ret hw hr
  · exact .done hw hr

section

variable {k : CloseK} (hw : s'.w = s.w) (hr : s'.r = s.r)
include hw hr

theorem CloseOnly.closeCancelled : CloseOnly s s'.closeCancelled := .closeFinalize _ hw hr

theorem CloseOnly.closeCancelSend : CloseOnly s s'.closeCancelSend := by
  unfold KlStream.closeCancelSend
  split
  · next h =>
    simp only [Bool.and_eq_true, hw] at h
    constructor <;> simp [hw, hr, Frame.facet, h.1.1]
  · exact .closeCancelled hw hr

theorem CloseOnly.closeCancels : CloseOnly s s'.closeCancels := by
  unfold KlStream.closeCancels
  split_ifs
  · next h =>
    simp only [Bool.and_eq_true, hr] at h
    constructor <;> simp [hw, hr, Frame.facet, h.1.1]
  · exact .closeCancelSend hw hr
  · exact .closeFinalize _ hw hr

theorem CloseOnly.readCloseRet : CloseOnly s (s'.readCloseRet k) := by
  cases k with
  | readClose => exact .done hw hr
  | closeCommon => exact .closeCancels hw hr

end

/-- The frames of the other facets are as they were. -/
theorem CloseOnly.stack {o : SOut} {F : Facet} (h : CloseOnly s o) (hF : F ≠ .close)
    (st : List Frame) :
    (o.stack st).filter (·.facet = F) = st.filter (·.facet = F) := by
  cases o with
  | done s' ret => rfl
  | call s' f => simp [h.facet f rfl, Ne.symm hF]

end

/-- `kl_stream_read_close`: nothing, or the read side is closed, with or without a
call of `read_disarm`. -/
inductive ReadCloseOut (s : KlStream) (k : CloseK) : SOut → Prop where
  | already {o : SOut} : (s.r.readInited = true → s.r.readClosed = true) → CloseOnly s o →
      ReadCloseOut s k o
  | closed {o : SOut} : s.r.readClosed = false → s.r.readCompletionMode = true →
      CloseOnly { s with r := s.r.setClosed.dropHeld } o → ReadCloseOut s k o
  | dropped {o : SOut} : s.r.readClosed = false → s.r.readCompletionMode = false →
      (s.r.recvInflight && s.r.readDisarm) = false →
      CloseOnly { s with r := s.r.setClosed.dropHeld.retire } o → ReadCloseOut s k o
  | disarm {s' : KlStream} : s.r.readClosed = false → s.r.readCompletionMode = false →
      s.r.recvInflight = true → s'.w = s.w → s'.r = s.r.setClosed.dropHeld →
      ReadCloseOut s k (.call s' (.closeDisarm k))

/-- Closing the read side may deliver the end of the stream first. -/
theorem ReadCloseOut.readClose (k : CloseK) (hw : s'.w = s.w)
    (hr : s'.r = s.r) : ReadCloseOut s k (s'.readClose k) := by
  unfold KlStream.readClose
  split
  · next h =>
    refine .already (fun hi => ?_) (.readCloseRet hw hr)
    simpa [hr, hi] using h
  rename_i h
  have hcl : s.r.readClosed = false := by
    simp only [hr, Bool.or_eq_true, not_or] at h
    simpa using h.2
  split
  · next hm =>
    have hm : s.r.readCompletionMode = false := by simpa [hr] using hm
    split
    · next hd =>
      exact .disarm hcl hm (by simp_all) hw (by rw [hr])
    · next hd =>
      exact .dropped hcl hm (by simpa [hr] using hd) (.readCloseRet hw (by rw [hr]))
  · next hm =>
    exact .closed hcl (by simpa [hr] using hm) (.readCloseRet hw (by rw [hr]))

/-- `stream_close_common`: the read side is closed first, unless that was done. -/
theorem closeCommon_cases (s : KlStream) (abort : Bool) :
    (CloseOnly s (s.closeCommon abort) ∧ (s.c.closeInited = true → s.r.readInited = true →
      s.c.closeState ≠ .opened)) ∨
    (s.c.closeState = .opened ∧ ReadCloseOut s .closeCommon (s.closeCommon abort)) := by
  unfold closeCommon
  split
  · next h =>
    refine .inl ⟨.done rfl rfl, fun hi => ?_⟩
    simp [hi] at h
  · split
    · next h => exact .inl ⟨.done rfl rfl, fun _ _ => by simp [h]⟩
    · split
      · next ho =>
        split
        · exact .inr ⟨ho, .readClose _ rfl rfl⟩
        · next h =>
          refine .inl ⟨.closeCancels rfl rfl, fun _ hi => absurd hi h⟩
      · next ho => exact .inl ⟨.closeCancels rfl rfl, fun _ _ => ho⟩

/-! ## Close hooks -/

/-- What holds when a hook of the close facet is called. -/
structure HookOk (s : KlStream) (f : Frame) : Prop where
  recv : f = .cancelRecv → s.r.recvInflight = true
  send : f = .cancelSend → s.w.sendInflight = true
  detached : ∀ ret, f = .onClose ret →
    s.c.inCloseCancel = 0 ∧ s.w.inWritable = 0 ∧ s.fullyRetired = true
  closed : ∀ ret, f = .onClose ret → s.c.closeState = .closed

/-- Only the hooks of the close facet have something to show. -/
theorem HookOk.of_facet (hf : f.facet ≠ .close) : HookOk s f := by
  cases f with
  | cancelRecv => exact absurd rfl hf
  | cancelSend => exact absurd rfl hf
  | onClose ret => exact absurd rfl hf
  | _ => constructor <;> nofun

theorem CloseOnly.hookOk (h : CloseOnly s (.call s' f)) : HookOk s' f := by
  have hw : s'.w = s.w := h.w
  have hr : s'.r = s.r := h.r
  constructor
  · rintro rfl
    rw [hr]
    exact h.recv rfl
  · rintro rfl
    rw [hw]
    exact h.send rfl
  · rintro ret rfl
    obtain ⟨-, hc, hi, hret⟩ := h.detached ret rfl
    exact ⟨hc, hw ▸ hi, hret⟩
  · rintro ret rfl
    exact (h.detached ret rfl).1

theorem FacetOut.hookOk {n : Bool} (h : FacetOut F n s (.call s' f)) : HookOk s' f := by
  generalize ho : (Out.call s' f : SOut) = o at h
  cases h with
  | done ret hw hc => cases ho
  | call g hw hg hc =>
    cases ho
    exact .of_facet hg.2.1
  | @retire s₁ ret hw hc hn =>
    have h := CloseOnly.closeFinalize (s := s₁) ret rfl rfl
    rw [← ho] at h
    exact h.hookOk

/-- Every hook that a call makes is in order. -/
theorem hookOk_enter {op : Op} (h : enter op s = .call s' f) : HookOk s' f := by
  have hcommon {abort : Bool} (h : s.closeCommon abort = .call s' f) : HookOk s' f := by
    obtain ⟨ho, -⟩ | ⟨-, ho⟩ := closeCommon_cases s abort
    · exact CloseOnly.hookOk (h ▸ ho)
    · rw [h] at ho
      cases ho with
      | already _ ho => exact ho.hookOk
      | closed _ _ ho => exact ho.hookOk
      | dropped _ _ _ ho => exact ho.hookOk
      | disarm _ _ _ _ _ => exact .of_facet nofun
  by_cases hop : op.facet = .close
  · cases op with
    | closeBegin => exact hcommon h
    | cancel => exact hcommon h
    | _ => cases hop
  · exact FacetOut.hookOk (h ▸ FacetOut.enter s hop)

theorem hookOk_afterHook {g : Frame} {v : Int}
    (h : afterHook g v s = .call s' f) : HookOk s' f := by
  cases hg : g.inCommon with
  | false => exact FacetOut.hookOk (h ▸ FacetOut.afterHook s v hg)
  | true =>
    cases g with
    | cancelRecv =>
      have ho : CloseOnly s (afterHook .cancelRecv v s) := .closeCancelSend rfl rfl
      exact CloseOnly.hookOk (h ▸ ho)
    | cancelSend =>
      have ho : CloseOnly s (afterHook .cancelSend v s) := .closeCancelled rfl rfl
      exact CloseOnly.hookOk (h ▸ ho)
    | closeDisarm k =>
      have ho : CloseOnly { s with r := s.r.retire } (afterHook (.closeDisarm k) v s) :=
        .readCloseRet rfl rfl
      exact CloseOnly.hookOk (h ▸ ho)
    | _ => cases hg

/-- In a run every hook is called in order. -/
theorem hookOk_of_called {P : SConfig → SAct → Prop} {c₀ c : SConfig}
    (h : Machine.Called machine P c₀ c f) : HookOk c.state f := by
  cases h with
  | enter op _ ho _ => exact hookOk_enter ho
  | resume g v rest _ _ ho _ => exact hookOk_afterHook ho

end KlStream
