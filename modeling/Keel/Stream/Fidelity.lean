-- SUMMARY: The write contract over whole runs: all-or-none, in order, none after a failure.
import Keel.Stream.Progress

/-!
# Fidelity of the write side

`admissions` lists the writes that were not refused when they were called, in the
order of the calls, with what became of each. The transport takes a prefix of their
bytes. Further histories count the submissions that are outstanding and relate a
failure or a cancel to everything that comes after it.
-/

open Reentrant List

namespace Frame

/-- `kl_stream_write` is suspended in the hook. -/
def isWrite : Frame → Bool
  | .writeDirect _ | .submit _ (.write _) => true
  | _ => false

theorem isWrite_facet (f : Frame) (h : f.isWrite = true) : f.facet = .write := by
  cases f <;> first | rfl | cases h

/-- The transport is offered bytes. -/
def isTransport : Frame → Bool
  | .writeDirect _ | .flushPush | .submit _ _ => true
  | _ => false

end Frame

/-- A write that was not refused when it was called is running, returned ACCEPTED,
or failed. -/
inductive Fate where
  | running
  | accepted
  | failed
deriving DecidableEq, Repr

def Fate.settle (status : KlStreamWriteStatus) : Fate → Fate
  | .running => match status with
    | .accepted => .accepted
    | _ => .failed
  | fate => fate

structure Admission where
  data : List UInt8
  fate : Fate
deriving DecidableEq, Repr

namespace Admission

def isRunning (a : Admission) : Bool := a.fate = .running
def isFailed (a : Admission) : Bool := a.fate = .failed

variable (status : KlStreamWriteStatus)

/-- The running write returned. -/
def settle (a : Admission) : Admission := { a with fate := a.fate.settle status }

theorem countP_running_settle (l : List Admission) :
    (l.map (settle status)).countP isRunning = 0 := by
  rw [countP_eq_zero]
  intro a ha
  obtain ⟨⟨data, fate⟩, -, rfl⟩ := mem_map.mp ha
  cases fate <;> cases status <;> nofun

/-- Settling the running write adds one failure at most. -/
theorem countP_failed_settle (l : List Admission) :
    (l.map (settle status)).countP isFailed ≤ l.countP isFailed + l.countP isRunning := by
  induction l with
  | nil => exact Nat.le_refl _
  | cons a l ih =>
    obtain ⟨data, fate⟩ := a
    simp only [map_cons, countP_cons]
    cases fate <;> cases status <;>
      simp only [settle, Fate.settle, isFailed, isRunning, reduceCtorEq, decide_false, decide_true,
        if_true, Bool.false_eq_true, if_false] <;> omega

theorem countP_failed_accepted (l : List Admission) :
    (l.map (settle .accepted)).countP isFailed = l.countP isFailed := by
  rw [countP_map]
  refine countP_congr ?_
  rintro ⟨data, fate⟩ -
  cases fate <;> rfl

end Admission

namespace KlStream

/-! ## Histories -/

def admitStep (l : List Admission) (st : SStep) : List Admission :=
  match st.cause, st.out with
  | .enter (.write src), .done _ (.written .accepted) => l ++ [⟨src.data, .accepted⟩]
  | .enter (.write src), .call _ _ => l ++ [⟨src.data, .running⟩]
  | .resume f _, .done _ (.written status) =>
    if f.isWrite then l.map (Admission.settle status) else l
  | _, _ => l

variable (tr : List SStep)

def admissions : List Admission := tr.foldl admitStep []

@[simp] theorem admissions_append (st : SStep) :
    admissions (tr ++ [st]) = admitStep (admissions tr) st := by
  simp [admissions]

/-- The bytes admitted after one more stretch. -/
theorem admit_data (l : List Admission) (st : SStep) :
    (admitStep l st).flatMap Admission.data = l.flatMap Admission.data ++ admittedBy st := by
  obtain ⟨pre, cause, out⟩ := st
  cases cause with
  | enter op =>
    cases op with
    | write src =>
      cases out with
      | call s f => simp [admitStep, admittedBy]
      | done s r =>
        cases r with
        | written status => cases status <;> simp [admitStep, admittedBy]
        | _ => simp [admitStep, admittedBy]
    | _ => cases out <;> simp [admitStep, admittedBy]
  | resume f v =>
    cases out with
    | call s f => simp [admitStep, admittedBy]
    | done s r =>
      cases r with
      | written status =>
        simp only [admitStep, admittedBy, append_nil]
        split
        · simp [flatMap_map, Admission.settle]
        · rfl
      | _ => simp [admitStep, admittedBy]

/-- The admitted writes are those whose bytes were admitted. -/
theorem admissions_data : (admissions tr).flatMap Admission.data = admitted tr := by
  have (l : List Admission) :
      (tr.foldl admitStep l).flatMap Admission.data = l.flatMap Admission.data ++ admitted tr := by
    induction tr generalizing l with
    | nil => simp [admitted]
    | cons st tr ih =>
      rw [foldl_cons, ih, admit_data, append_assoc]
      simp [admitted]
  simpa [admissions] using this []

/-- A completion ends a submission, and so does a failed `submit_fn`. -/
def endsSubmission (st : SStep) : Bool :=
  match st.cause with
  | .enter (.onWriteComplete _) => true
  | .resume (.submit _ _) r => r ≠ 0
  | _ => false

/-- The submissions outstanding, as the transport counts them. -/
def submissions : Nat :=
  tr.foldl (fun n st => (if endsSubmission st then n - 1 else n) +
    st.out.hook.toList.countP Frame.isSubmit) 0

/-- The sends in flight after one more stretch. -/
theorem submissions_append (st : SStep) :
    submissions (tr ++ [st]) = (if endsSubmission st then submissions tr - 1 else submissions tr) +
      st.out.hook.toList.countP Frame.isSubmit := by
  simp [submissions]

/-! ## How a write ends -/

/-- `kl_stream_write` as it is called: refused with the queue as it was, accepted, or
waiting for a hook. -/
inductive WriteOut (s : KlStream) : SOut → Prop where
  | refused {s' : KlStream} {status : KlStreamWriteStatus} : status ≠ .accepted →
      s'.w.wq = s.w.wq → WriteOut s (.done s' (.written status))
  | accepted {s' : KlStream} : WriteOut s (.done s' (.written .accepted))
  | hook {s' : KlStream} {f : Frame} : f.isWrite = true → WriteOut s (.call s' f)

/-- `kl_stream_write` after a hook: accepted, failed for good, or waiting again. -/
inductive ResumeOut : SOut → Prop where
  | accepted {s' : KlStream} : ResumeOut (.done s' (.written .accepted))
  | failed {s' : KlStream} : s'.w.wqErr = true → ResumeOut (.done s' (.written .error))
  | hook {s' : KlStream} {f : Frame} : f.isWrite = true → ResumeOut (.call s' f)

section

variable {s : KlStream}

theorem WriteOut.pumpCompletion {s' : KlStream} (data : List UInt8) (herr : s'.w.wqErr = false) :
    WriteOut s (s'.pumpCompletion (.write data)) := by
  unfold KlStream.pumpCompletion
  rw [if_neg (by simp [herr])]
  split_ifs
  · exact .accepted
  · exact .accepted
  · exact .accepted
  · exact .hook rfl

/-- How a write returns, by what it did with its bytes. -/
theorem WriteOut.write {ws : List Frame} (hw : WriteInv s.w ws) (src : SrcBuf) :
    WriteOut s (s.write src) := by
  refine write_elim hw.inited hw.queue hw.error ?_ ?_ ?_ ?_ ?_ ?_
  · exact fun _ hne _ => .refused hne rfl
  · exact fun _ => .accepted
  · exact fun _ _ _ => .refused nofun rfl
  · exact fun data _ _ herr _ _ _ => .pumpCompletion data herr
  · exact fun _ _ _ _ _ _ => .accepted
  · exact fun _ _ _ _ _ _ => .hook rfl

theorem ResumeOut.pumpCompletion (s : KlStream) (data : List UInt8) :
    ResumeOut (s.pumpCompletion (.write data)) := by
  unfold KlStream.pumpCompletion
  split_ifs
  · next herr => exact .failed herr
  · exact .accepted
  · exact .accepted
  · exact .accepted
  · exact .hook rfl

/-- The rest of a write behind `submit_fn`. -/
theorem ResumeOut.submitted (s : KlStream) (len : Nat) (r : Int) (data : List UInt8) :
    ResumeOut (s.submitted len r (.write data)) := by
  unfold KlStream.submitted
  split_ifs
  · exact .failed rfl
  · exact .accepted
  · exact .failed rfl
  · exact .pumpCompletion _ data

theorem ResumeOut.writeSent (s : KlStream) (data : List UInt8) (n : Int) :
    ResumeOut (s.writeSent data n) := by
  unfold KlStream.writeSent
  obtain ⟨heq, -⟩ | ⟨heq, -⟩ | ⟨heq, -⟩ := KlDrain.reserveWriteSent_cases s.w.wq data n
  · rw [heq]
    exact .failed rfl
  · rw [heq]
    exact .accepted
  · rw [heq]
    exact .accepted

/-- The rest of a write behind any hook. -/
theorem ResumeOut.afterHook {f : Frame} (hf : f.isWrite = true) (v : Int) (s : KlStream) :
    ResumeOut (afterHook f v s) := by
  cases f with
  | writeDirect data => exact .writeSent s data v
  | submit len k =>
    cases k with
    | write data => exact .submitted s len v data
    | complete => cases hf
  | _ => cases hf

/-- The other operations, and the code after the other hooks, leave no
`kl_stream_write` suspended. -/
theorem CloseOnly.notWrite {o : SOut} (h : CloseOnly s o) :
    ∀ f, o.hook = some f → f.isWrite = false := by
  intro f hf
  have := h.facet f hf
  cases f <;> first | rfl | cases this

theorem completeTail_notWrite (s : KlStream) (r : Int) : ∀ f, (s.completeTail r).hook = some f →
    f.isWrite = false := by
  unfold completeTail
  split
  · rintro f ⟨⟩
    rfl
  · exact (CloseOnly.onRetire _ rfl rfl).notWrite

theorem pumpCompletion_notWrite (s : KlStream) : ∀ f, (s.pumpCompletion .complete).hook = some f →
    f.isWrite = false := by
  unfold pumpCompletion
  split_ifs
  · exact completeTail_notWrite s _
  · exact completeTail_notWrite s _
  · exact completeTail_notWrite s _
  · exact completeTail_notWrite s _
  · rintro f ⟨⟩
    rfl

theorem flushEdge_notWrite (s : KlStream) (r : Int) :
    ∀ f, (s.flushEdge r).hook = some f → f.isWrite = false := by
  unfold flushEdge
  split_ifs
  · rintro f ⟨⟩
    rfl
  · exact (CloseOnly.onRetire _ rfl rfl).notWrite
  · nofun

theorem FacetOut.notWrite {F : Facet} {n : Bool} {o : SOut} (h : FacetOut F n s o)
    (hF : F ≠ .write) : ∀ f, o.hook = some f → f.isWrite = false := by
  cases h with
  | done ret hw hc => nofun
  | call g hw hg hc =>
    rintro f ⟨⟩
    have := hg.1
    cases g <;> first | rfl | exact absurd this.symm hF
  | @retire s' ret hw hc hn => exact (CloseOnly.closeFinalize ret rfl rfl).notWrite

theorem ReadCloseOut.notWrite {k : CloseK} {o : SOut} (h : ReadCloseOut s k o) :
    ∀ f, o.hook = some f → f.isWrite = false := by
  cases h with
  | already _ ho => exact ho.notWrite
  | closed _ _ ho => exact ho.notWrite
  | dropped _ _ _ ho => exact ho.notWrite
  | disarm _ _ _ _ _ =>
    rintro f ⟨⟩
    rfl

/-- Only a write starts a write frame. -/
theorem enter_notWrite {op : Op} (h : ∀ src, op ≠ .write src) (s : KlStream) :
    ∀ f, (enter op s).hook = some f → f.isWrite = false := by
  have hcommon (abort : Bool) : ∀ f, (s.closeCommon abort).hook = some f → f.isWrite = false := by
    obtain ⟨ho, -⟩ | ⟨-, ho⟩ := closeCommon_cases s abort
    · exact ho.notWrite
    · exact ho.notWrite
  cases op with
  | write src => exact absurd rfl (h src)
  | flush =>
    simp only [enter, flush]
    split_ifs
    · exact Out.no_hook
    · exact Out.no_hook
    · exact flushEdge_notWrite _ _
    · exact flushEdge_notWrite _ _
    · rintro f ⟨⟩
      rfl
  | onWriteComplete ok =>
    simp only [enter, onWriteComplete]
    split
    · exact Out.no_hook
    split
    · exact Out.no_hook
    split
    · exact Out.no_hook
    · split
      · exact completeTail_notWrite _ _
      · exact pumpCompletion_notWrite _
  | closeBegin => exact hcommon false
  | cancel => exact hcommon true
  | readStart => exact (FacetOut.readStart s).notWrite (by rintro ⟨⟩)
  | onRecv len ok => exact (FacetOut.onRecv s len ok).notWrite (by rintro ⟨⟩)
  | pause => exact (FacetOut.pause s).notWrite (by rintro ⟨⟩)
  | resume => exact (FacetOut.resume s).notWrite (by rintro ⟨⟩)
  | readClose => exact (FacetOut.readClose s).notWrite (by rintro ⟨⟩)

/-- No other frame turns into one. -/
theorem afterHook_notWrite {g : Frame} (hg : g.isWrite = false) (v : Int) (s : KlStream) :
    ∀ f, (afterHook g v s).hook = some f → f.isWrite = false := by
  cases g with
  | writeDirect data => cases hg
  | flushPush =>
    show ∀ f, (s.flushPushed v).hook = some f → f.isWrite = false
    obtain ⟨heq, -⟩ | ⟨heq, -⟩ | ⟨heq, -⟩ := flushPushed_cases s v
    · rw [heq]
      exact flushEdge_notWrite _ _
    · rw [heq]
      exact flushEdge_notWrite _ _
    · rw [heq]
      rintro f ⟨⟩
      rfl
  | submit len k =>
    cases k with
    | write data => cases hg
    | complete =>
      simp only [afterHook, submitted]
      split_ifs
      · exact completeTail_notWrite _ _
      · exact completeTail_notWrite _ _
      · exact completeTail_notWrite _ _
      · exact pumpCompletion_notWrite _
  | flushWritable r =>
    exact (CloseOnly.onRetire _ rfl rfl).notWrite
  | completeWritable r =>
    exact (CloseOnly.onRetire _ rfl rfl).notWrite
  | arm k => exact (FacetOut.armed s v k).notWrite (by rintro ⟨⟩)
  | deliver len ok k => exact (FacetOut.delivered s ok k).notWrite (by rintro ⟨⟩)
  | pauseDisarm => exact Out.no_hook
  | closeDisarm k =>
    exact (CloseOnly.readCloseRet rfl rfl).notWrite
  | cancelRecv => exact (CloseOnly.closeCancelSend rfl rfl).notWrite
  | cancelSend => exact (CloseOnly.closeCancelled rfl rfl).notWrite
  | onClose r => exact Out.no_hook

end

/-! ## Admissions -/

/-- An operation changes the write facet as `Keeps` says. -/
theorem enter_keeps (op : Op) (s : KlStream) : s.w.Keeps (enter op s).state.w := by
  by_cases hop : op.facet = .write
  · have hne : op.facet ≠ .close := by
      rw [hop]
      nofun
    have h := FacetOut.enter s hne
    rw [hop] at h
    exact h.within.2
  · have h : After (fun w _ => s.w.Keeps w) [] (enter op s) := After.enter_other hop .rfl
    exact h

/-- No return of a hook changes how the write side was set up. -/
theorem afterHook_keeps (f : Frame) (v : Int) (s : KlStream) :
    s.w.Keeps (afterHook f v s).state.w := by
  by_cases hf : f.facet = .write
  · have hc : f.inCommon = false := by cases f <;> first | rfl | cases hf
    have h := FacetOut.afterHook s v hc
    rw [hf] at h
    exact h.within.2
  · have h : After (fun w _ => s.w.Keeps w) [] (afterHook f v s) := After.afterHook_other v hf .rfl
    exact h

theorem err_le {w w' : KlStreamWrite} (h : w.Keeps w') : w.wqErr.toNat ≤ w'.wqErr.toNat := by
  cases he : w.wqErr with
  | false => exact Nat.zero_le _
  | true => exact Nat.le_of_eq (by rw [h.wqErr he])

/-- One write is suspended at a time. -/
theorem countP_isWrite_le {adm han : List UInt8} {ack : Nat} {w : KlStreamWrite} {st : List Frame}
    (hw : WriteInv w (writeFrames st)) (hb : BytesInv adm han ack w (writeFrames st)) :
    st.countP Frame.isWrite ≤ 1 := by
  rw [← countP_writeFrames Frame.isWrite_facet]
  cases hsub : w.submitFn with
  | true =>
    -- completion mode: only `submit_fn`, which is not called again before it returned
    refine Nat.le_trans (countP_mono_left fun f hf hwr => ?_)
      (Nat.le_trans (Nat.le_of_eq hw.submits) (Bool.toNat_le _))
    have := hw.writers hsub f hf
    cases f with
    | submit len k => rfl
    | writeDirect data => cases this
    | _ => cases hwr
  | false =>
    -- readiness mode: only the writer
    have hno : (writeFrames st).countP Frame.isSubmit = 0 := by
      rw [hw.submits]
      cases hs : w.submitting with
      | false => rfl
      | true => simp [(hw.inflight (hw.submitting hs)).1] at hsub
    rw [countP_eq_zero] at hno
    refine Nat.le_trans (countP_mono_left fun f hf hwr => ?_) hb.one
    cases f with
    | submit len k => exact absurd rfl (hno _ hf)
    | writeDirect data => rfl
    | _ => cases hwr

structure Counts (l : List Admission) (s : KlStream) (st : List Frame) : Prop where
  running : l.countP Admission.isRunning = st.countP Frame.isWrite
  failed : l.countP Admission.isFailed ≤ s.w.wqErr.toNat

namespace Counts

variable {l : List Admission} {s : KlStream} {st : List Frame}

/-- Code that admits and settles nothing. -/
theorem same {o : SOut} (h : Counts l s st) (hk : s.w.Keeps o.state.w)
    (ho : ∀ f, o.hook = some f → f.isWrite = false) : Counts l o.state (o.stack st) where
  running := by
    cases o with
    | done s' ret => exact h.running
    | call s' f => rw [h.running, Out.stack_call, countP_cons_of_neg (by simp [ho f rfl])]
  failed := Nat.le_trans h.failed (err_le hk)

theorem enter (h : Counts l s st) (hw : WriteInv s.w (writeFrames st)) (op : Op) :
    Counts (admitStep l ⟨s, .enter op, enter op s⟩) (enter op s).state ((enter op s).stack st) := by
  have hk := enter_keeps op s
  by_cases hop : ∃ src, op = .write src
  · obtain ⟨src, rfl⟩ := hop
    have ho : WriteOut s (KlStream.enter (.write src) s) := .write hw src
    generalize KlStream.enter (.write src) s = o at ho hk
    have herr := Nat.le_trans h.failed (err_le hk)
    cases ho with
    | @refused s' status hne _ =>
      have : admitStep l ⟨s, .enter (.write src), .done s' (.written status)⟩ = l := by
        cases status <;> first | rfl | exact absurd rfl hne
      rw [this]
      exact ⟨h.running, herr⟩
    | accepted =>
      refine ⟨?_, ?_⟩
      · simpa [admitStep, Admission.isRunning] using h.running
      · simpa [admitStep, Admission.isFailed] using herr
    | @hook s' f hf =>
      refine ⟨?_, ?_⟩
      · simp [admitStep, Admission.isRunning, countP_cons_of_pos hf, h.running]
      · simpa [admitStep, Admission.isFailed] using herr
  · have hne : ∀ src, op ≠ .write src := fun src heq => hop ⟨src, heq⟩
    have : admitStep l ⟨s, .enter op, KlStream.enter op s⟩ = l := by
      cases op <;> first | rfl | exact absurd rfl (hne _)
    rw [this]
    exact h.same hk (enter_notWrite hne s)

theorem resume {adm han : List UInt8} {ack : Nat} {f : Frame} (h : Counts l s (f :: st))
    (hw : WriteInv s.w (writeFrames (f :: st)))
    (hb : BytesInv adm han ack s.w (writeFrames (f :: st))) (v : Int) :
    Counts (admitStep l ⟨s, .resume f v, afterHook f v s⟩) (afterHook f v s).state
      ((afterHook f v s).stack st) := by
  have hk := afterHook_keeps f v s
  cases hf : f.isWrite with
  | false =>
    have hrun : Counts l s st := ⟨by simpa [hf] using h.running, h.failed⟩
    have : admitStep l ⟨s, .resume f v, afterHook f v s⟩ = l := by
      cases afterHook f v s with
      | call s' g => rfl
      | done s' ret => cases ret <;> simp [admitStep, hf]
    rw [this]
    exact hrun.same hk (afterHook_notWrite hf v s)
  | true =>
    have hone := countP_isWrite_le hw hb
    have hrun := h.running
    rw [countP_cons_of_pos hf] at hone hrun
    -- a write is suspended only while the write side has not failed
    have herr : s.w.wqErr = false := by
      cases f with
      | writeDirect data =>
        exact hb.writer (.writeDirect data) (by simp [writeFrames, Frame.facet]) rfl
      | submit len k =>
        have : WriteInv s.w (.submit len k :: writeFrames st) := by
          simpa [writeFrames, Frame.facet] using hw
        exact this.of_submit.2.2.2
      | _ => cases hf
    have hfail := h.failed
    rw [herr] at hfail
    have ho := ResumeOut.afterHook hf v s
    generalize afterHook f v s = o at ho hk
    cases ho with
    | accepted =>
      simp only [admitStep, hf, if_true]
      refine ⟨?_, ?_⟩
      · rw [Admission.countP_running_settle, Out.stack_done]
        omega
      · rw [Admission.countP_failed_accepted]
        exact Nat.le_trans h.failed (err_le hk)
    | failed he =>
      simp only [admitStep, hf, if_true]
      refine ⟨?_, ?_⟩
      · rw [Admission.countP_running_settle, Out.stack_done]
        omega
      · have := Admission.countP_failed_settle .error l
        rw [Out.state_done, he, Bool.toNat_true]
        rw [Bool.toNat_false] at hfail
        omega
    | hook hg =>
      refine ⟨?_, Nat.le_trans h.failed (err_le hk)⟩
      simpa [admitStep, countP_cons_of_pos hg] using hrun

end Counts

/-! ## Submissions -/

/-- `I` looks at the send in flight and at the calls of `submit_fn` only. -/
structure SendOnly (I : KlStreamWrite → List Frame → Prop) : Prop where
  congr {w w' : KlStreamWrite} {ws : List Frame} : I w ws → w'.sendInflight = w.sendInflight →
    w'.inlineDone = w.inlineDone → I w' ws
  cons {w : KlStreamWrite} {ws : List Frame} {f : Frame} : f.isSubmit = false → I w ws →
    I w (f :: ws)

namespace SendOnly

variable {I : KlStreamWrite → List Frame → Prop} {s : KlStream} {st : List Frame}

section

variable (hI : SendOnly I)
include hI

section

variable {r : Int} (h : I s.w (writeFrames st))
include h

theorem completeTail : After I st (s.completeTail r) :=
  .completeTail (fun _ => hI.congr (hI.cons rfl h) rfl rfl) (fun _ => h)

theorem flushEdge : After I st (s.flushEdge r) :=
  .flushEdge (fun _ => hI.congr (hI.cons rfl h) rfl rfl) (fun _ => h)

theorem pumpRet {j : SendK} : After I st (s.pumpRet r j) := by
  cases j with
  | write data =>
    simp only [KlStream.pumpRet]
    split
    · exact h
    · exact h
  | complete => exact hI.completeTail h

theorem flush : After I st s.flush := by
  unfold KlStream.flush
  split_ifs
  · exact h
  · exact h
  · exact hI.flushEdge (hI.congr h rfl rfl)
  · exact hI.flushEdge h
  · exact .call rfl (hI.cons rfl h)

theorem flushPushed (v : Int) : After I st (s.flushPushed v) := by
  obtain ⟨heq, -⟩ | ⟨heq, -⟩ | ⟨heq, -⟩ := flushPushed_cases s v
  · rw [heq]
    exact hI.flushEdge (hI.congr h rfl rfl)
  · rw [heq]
    exact hI.flushEdge (hI.congr h rfl rfl)
  · rw [heq]
    exact .call rfl (hI.congr (hI.cons rfl h) rfl rfl)

theorem writeSent (data : List UInt8) (v : Int) : After I st (s.writeSent data v) := by
  unfold KlStream.writeSent KlStream.writeReserved
  split <;> exact hI.congr h rfl rfl

end

/-- A hook returned that is not `submit_fn`. -/
theorem afterHook {f : Frame} (hf : f.isSubmit = false)
    (h : I s.w (writeFrames st)) (v : Int) : After I st (afterHook f v s) := by
  by_cases hfac : f.facet = .write
  · cases f with
    | submit len j => cases hf
    | writeDirect data => exact hI.writeSent h data v
    | flushPush => exact hI.flushPushed h v
    | flushWritable r =>
      exact .onRetire (hI.congr h rfl rfl)
    | completeWritable r =>
      exact .onRetire (hI.congr h rfl rfl)
    | _ => cases hfac
  · refine .afterHook_other v hfac ?_
    simpa [writeFrames, hfac] using h

end

end SendOnly

end KlStream

/-- A send the transport has not completed. -/
def KlStreamWrite.flying (w : KlStreamWrite) : Nat := (w.sendInflight && !w.inlineDone).toNat

namespace KlStream

theorem flying_of_idle {w : KlStreamWrite} (h : w.sendInflight = false) : w.flying = 0 := by
  simp [KlStreamWrite.flying, h]

theorem flying_le (w : KlStreamWrite) : w.flying ≤ 1 := Bool.toNat_le _

/-- From `n` submissions outstanding and `k` calls of `submit_fn` on the stack, every
call that was added posts one submission. -/
def Flies (n k : Nat) (w : KlStreamWrite) (ws : List Frame) : Prop :=
  w.flying + k = n + ws.countP Frame.isSubmit

namespace Flies

variable {s : KlStream} {st : List Frame} {n k : Nat}

theorem sendOnly (n k : Nat) : SendOnly (Flies n k) where
  congr h hi hd := by
    unfold Flies KlStreamWrite.flying at h ⊢
    rw [hi, hd]
    exact h
  cons hf h := by
    unfold Flies
    rw [countP_cons_of_neg (by simp [hf])]
    exact h

theorem pumpCompletion {j : SendK} (h : Flies n k s.w (writeFrames st)) :
    After (Flies n k) st (s.pumpCompletion j) := by
  have hret {r : Int} : After (Flies n k) st (s.pumpRet r j) := (sendOnly n k).pumpRet h
  unfold KlStream.pumpCompletion
  split
  · exact hret
  split
  · exact hret
  split
  · exact hret
  rename_i hi
  split
  · exact hret
  refine .call rfl ?_
  unfold Flies at h ⊢
  rw [flying_of_idle (by simpa using hi)] at h
  rw [countP_cons_of_pos rfl]
  simp only [KlStreamWrite.flying, KlStreamWrite.post, Bool.not_false, Bool.and_self,
    Bool.toNat_true]
  omega

/-- No send is in flight any more. -/
theorem idle {w : KlStreamWrite} {ws : List Frame} (hi : w.sendInflight = false)
    (hk : k = n + ws.countP Frame.isSubmit) : Flies n k w ws := by
  unfold Flies
  rw [flying_of_idle hi, ← hk, Nat.zero_add]

theorem submitted {len : Nat} {j : SendK} (hw : WriteInv s.w (.submit len j :: writeFrames st))
    (r : Int) :
    After (Flies (if r ≠ 0 then s.w.flying - 1 else s.w.flying)
      ((writeFrames st).countP Frame.isSubmit)) st (s.submitted len r j) := by
  obtain ⟨-, hi, -, -⟩ := hw.of_submit
  unfold KlStream.submitted
  split
  · refine (sendOnly _ _).pumpRet
      (idle rfl ?_)
    rw [Nat.sub_eq_zero_of_le (flying_le _), Nat.zero_add]
  split
  · exact (sendOnly _ _).pumpRet rfl
  next hd =>
  have hd : s.w.flying = 0 := by
    simp [KlStreamWrite.flying, hd]
  split
  · refine (sendOnly _ _).pumpRet (idle rfl ?_)
    rw [hd, Nat.zero_add]
  · refine pumpCompletion (idle rfl ?_)
    rw [hd, Nat.zero_add]

theorem onWriteComplete (hw : WriteInv s.w (writeFrames st)) (ok : Bool) :
    After (Flies (s.w.flying - 1) ((writeFrames st).countP Frame.isSubmit)) st
      (s.onWriteComplete ok) := by
  have hz : s.w.flying - 1 = 0 := Nat.sub_eq_zero_of_le (flying_le _)
  rw [hz]
  unfold KlStream.onWriteComplete
  split
  · next hin => simp [hw.inited] at hin
  split
  · next hi => exact idle (by simpa using hi) (Nat.zero_add _).symm
  split
  · show _ + _ = _ + _
    simp [KlStreamWrite.flying]
  split
  · exact (sendOnly _ _).completeTail (idle rfl (Nat.zero_add _).symm)
  · exact pumpCompletion
      (idle rfl (Nat.zero_add _).symm)

theorem write (hw : WriteInv s.w (writeFrames st)) (h : Flies n k s.w (writeFrames st))
    (src : SrcBuf) : After (Flies n k) st (s.write src) := by
  refine write_elim hw.inited hw.queue hw.error ?_ ?_ ?_ ?_ ?_ ?_
  · exact fun _ _ _ => h
  · exact fun _ => h
  · exact fun _ _ _ => h
  · intro data _ _ _ _ _ _
    exact pumpCompletion
      h
  · exact fun _ _ _ _ _ _ => h
  · exact fun _ _ _ _ _ _ => .call rfl ((sendOnly n k).cons rfl h)

theorem enter (hw : WriteInv s.w (writeFrames st)) (op : Op) (o : SOut) :
    After (Flies (if endsSubmission ⟨s, .enter op, o⟩ then s.w.flying - 1 else s.w.flying)
      ((writeFrames st).countP Frame.isSubmit)) st (enter op s) := by
  have hrefl : Flies s.w.flying ((writeFrames st).countP Frame.isSubmit) s.w (writeFrames st) := rfl
  cases op with
  | write src => exact write hw hrefl src
  | flush => exact (sendOnly _ _).flush hrefl
  | onWriteComplete ok => exact onWriteComplete hw ok
  | _ => exact .enter_other nofun hrefl

theorem afterHook {f : Frame} (hw : WriteInv s.w (writeFrames (f :: st))) (v : Int) (o : SOut) :
    After (Flies (if endsSubmission ⟨s, .resume f v, o⟩ then s.w.flying - 1 else s.w.flying)
      ((writeFrames st).countP Frame.isSubmit)) st (afterHook f v s) := by
  have hrefl : Flies s.w.flying ((writeFrames st).countP Frame.isSubmit) s.w (writeFrames st) := rfl
  cases f with
  | submit len j =>
    have hw : WriteInv s.w (.submit len j :: writeFrames st) := by
      simpa [writeFrames, Frame.facet] using hw
    show After _ st (s.submitted len v j)
    simpa only [endsSubmission, decide_eq_true_eq] using submitted hw v
  | _ => exact (sendOnly _ _).afterHook rfl hrefl v

/-- What the transport sees of a stretch of code. -/
theorem flying_eq {o : SOut} (h : After (Flies n ((writeFrames st).countP Frame.isSubmit)) st o) :
    o.state.w.flying = n + o.hook.toList.countP Frame.isSubmit := by
  have hst := countP_writeFrames_stack Frame.isSubmit_facet o st
  unfold After Flies at h
  omega

end Flies

/-! ## After a failure or a cancel -/

/-- The stream was cancelled, or its close is over. -/
def Stopped (s : KlStream) : Prop := s.c.closeAbort = true ∨ s.c.closeState = .closed

/-- No call of `submit_fn` is added to the `k` on the stack, and no send starts. -/
def NoSubmit (k : Nat) (inflight : Bool) (w : KlStreamWrite) (ws : List Frame) : Prop :=
  ws.countP Frame.isSubmit ≤ k ∧ (w.sendInflight = true → inflight = true)

namespace NoSubmit

variable {s : KlStream} {st : List Frame} {k : Nat} {b : Bool}

theorem sendOnly (k : Nat) (b : Bool) : SendOnly (NoSubmit k b) where
  congr h hi _ := ⟨h.1, fun h' => h.2 (hi ▸ h')⟩
  cons hf h := by
    refine ⟨?_, h.2⟩
    rw [countP_cons_of_neg (by simp [hf])]
    exact h.1

/-- The pump stops at an abortive close. -/
theorem pumpCompletion {j : SendK} (h : NoSubmit k b s.w (writeFrames st))
    (hab : s.c.closeAbort = true) : After (NoSubmit k b) st (s.pumpCompletion j) := by
  unfold KlStream.pumpCompletion
  split
  · exact (sendOnly k b).pumpRet h
  · exact (sendOnly k b).pumpRet h

theorem enter (hs : Stopped s) (hwq : s.c.wqClosing = true)
    (hidle : s.c.closeState = .closed → s.w.sendInflight = false) (op : Op) :
    After (NoSubmit ((writeFrames st).countP Frame.isSubmit) s.w.sendInflight) st (enter op s) := by
  have hle := Nat.le_refl ((writeFrames st).countP Frame.isSubmit)
  cases op with
  | write src =>
    simp only [KlStream.enter, KlStream.write, hwq, if_true]
    split_ifs
    · exact ⟨hle, id⟩
    · exact ⟨hle, id⟩
    · exact ⟨hle, id⟩
  | flush => exact (sendOnly _ _).flush ⟨hle, id⟩
  | onWriteComplete ok =>
    simp only [KlStream.enter, KlStream.onWriteComplete]
    split
    · exact ⟨hle, id⟩
    split
    · exact ⟨hle, id⟩
    next hi =>
    have hab : s.c.closeAbort = true := hs.resolve_right fun hcl => by simp [hidle hcl] at hi
    split
    · exact ⟨hle, id⟩
    · split
      · exact (sendOnly _ _).completeTail ⟨hle, fun h => absurd h Bool.false_ne_true⟩
      · exact pumpCompletion ⟨hle, fun h => absurd h Bool.false_ne_true⟩ hab
  | _ => exact .enter_other (by rintro ⟨⟩) ⟨hle, id⟩

theorem afterHook {f : Frame} (hw : WriteInv s.w (writeFrames (f :: st))) (hs : Stopped s)
    (hidle : s.c.closeState = .closed → s.w.sendInflight = false) (v : Int) :
    After (NoSubmit ((writeFrames st).countP Frame.isSubmit) s.w.sendInflight) st
      (afterHook f v s) := by
  have hle := Nat.le_refl ((writeFrames st).countP Frame.isSubmit)
  cases f with
  | submit len j =>
    have hw : WriteInv s.w (.submit len j :: writeFrames st) := by
      simpa [writeFrames, Frame.facet] using hw
    obtain ⟨-, hi, -, -⟩ := hw.of_submit
    have hab : s.c.closeAbort = true := hs.resolve_right fun hcl => by simp [hidle hcl] at hi
    simp only [KlStream.afterHook, KlStream.submitted]
    split_ifs
    · exact (sendOnly _ _).pumpRet
        ⟨hle, fun h => absurd h Bool.false_ne_true⟩
    · exact (sendOnly _ _).pumpRet ⟨hle, id⟩
    · exact (sendOnly _ _).pumpRet ⟨hle, fun h => absurd h Bool.false_ne_true⟩
    · exact pumpCompletion ⟨hle, fun h => absurd h Bool.false_ne_true⟩ hab
  | _ => exact (sendOnly _ _).afterHook rfl ⟨hle, id⟩ v

theorem hook {o : SOut} (h : After (NoSubmit ((writeFrames st).countP Frame.isSubmit) b) st o) :
    ∀ f, o.hook = some f → f.isSubmit = false := by
  intro f hf
  have hle := h.1
  rw [countP_writeFrames_stack Frame.isSubmit_facet, hf] at hle
  cases hs : f.isSubmit with
  | false => rfl
  | true =>
    simp only [Option.toList_some, countP_cons_of_pos hs, countP_nil] at hle
    omega

end NoSubmit

variable {s : KlStream} {u : Setup} {tr : List SStep} {st : List Frame}

/-- A cancelled stream stays so. -/
theorem Stopped.of_ends {c : KlStreamClose} (h : Stopped s) (he : s.c.Ends c) :
    c.closeAbort = true ∨ c.closeState = .closed :=
  h.imp (fun hab => he.abort.trans hab) he.closed

/-- A cancel stops the stream, and nothing starts it again. -/
theorem Stopped.enter (hb : Base u tr s st) (op : Op) (h : Stopped s ∨ op = .cancel) :
    Stopped (enter op s).state := by
  have hcommon (abort : Bool) (h : Stopped s ∨ abort = true) :
      Stopped (s.closeCommon abort).state := by
    have hq (hs : s.c.closeState = .closing) : s.c.wqClosing = true :=
      hb.refusing (by rw [hs]; nofun)
    obtain ⟨hcl, heq⟩ | ⟨hcl, he⟩ := closeCommon_ends hb.close.inited hq abort
    · rw [heq]
      exact .inr hcl
    · have hab : (abort || s.c.closeAbort) = true := by
        rcases h with (h | h) | h
        · simp [h]
        · exact absurd h hcl
        · simp [h]
      exact .inl (he.abort.trans hab)
  by_cases hop : op.facet = .close
  · cases op with
    | closeBegin => exact hcommon false (.inl (h.resolve_right nofun))
    | cancel => exact hcommon true (.inr rfl)
    | _ => cases hop
  · refine Stopped.of_ends (h.resolve_right fun hc => ?_) (FacetOut.enter s hop).ends
    rw [hc] at hop
    exact hop rfl

/-- The close ends only by calling `on_close`, with no send in flight. -/
theorem idle_of_closed {st' : List Frame}
    {x : SStep} (hb : Base u tr s st) (hb' : Base u (tr ++ [x]) x.out.state st')
    (hopen : s.c.closeState ≠ .closed) (hcl : x.out.state.c.closeState = .closed)
    (hok : ∀ f, x.out.hook = some f → HookOk x.out.state f) :
    x.out.state.w.sendInflight = false := by
  have hn : s.c.closeNotified = false := by
    cases hn : s.c.closeNotified with
    | false => rfl
    | true => exact absurd (hb.close.notified.mpr hn) hopen
  have hfired := hb'.close.fired
  rw [hb'.close.notified.mp hcl, hooks_append, countP_append, hb.close.fired, hn] at hfired
  have hpos : 0 < x.out.hook.toList.countP Frame.isOnClose := by
    simp only [Bool.toNat_false, Bool.toNat_true] at hfired
    omega
  obtain ⟨f, hf, hclose⟩ := countP_pos_iff.mp hpos
  have hook : x.out.hook = some f := by simpa using hf
  cases f with
  | onClose ret => exact (fullyRetired_iff.mp ((hok _ hook).detached ret rfl).2.2).2.1
  | _ => cases hclose

/-! ## The invariant -/

/-- A write refused for good or for now was refused at once, and took nothing. -/
def CleanRefusal (x : SStep) : Prop :=
  ∀ status, x.out.result = some (.written status) → status ≠ .accepted → status ≠ .error →
    match x.cause with
    | .enter (.write _) => x.out.state.w.wq = x.pre.w.wq
    | .resume f _ => f.isWrite = false
    | _ => True

/-- A write that is refused has taken nothing. -/
theorem CleanRefusal.enter {ws : List Frame} (hw : WriteInv s.w ws) (op : Op) :
    CleanRefusal ⟨s, .enter op, enter op s⟩ := by
  intro status hres hacc herr
  cases op with
  | write src =>
    have ho : WriteOut s (KlStream.enter (.write src) s) := .write hw src
    generalize KlStream.enter (.write src) s = o at ho hres
    cases ho with
    | refused _ hq => exact hq
    | accepted =>
      cases hres
      exact absurd rfl hacc
    | hook _ => cases hres
  | _ => trivial

theorem CleanRefusal.resume (s : KlStream) (f : Frame) (v : Int) :
    CleanRefusal ⟨s, .resume f v, afterHook f v s⟩ := by
  intro status hres hacc herr
  cases hf : f.isWrite with
  | false => exact hf
  | true =>
    have ho := ResumeOut.afterHook hf v s
    generalize afterHook f v s = o at ho hres
    cases ho with
    | accepted =>
      cases hres
      exact absurd rfl hacc
    | failed _ =>
      cases hres
      exact absurd rfl herr
    | hook _ => cases hres

/-- After a failure no hook of the transport is called. -/
def SilentAfterFailure (a b : SStep) : Prop :=
  a.out.state.w.wqErr = true → ∀ f, b.out.hook = some f → f.isTransport = false

/-- After a cancel nothing is submitted. -/
def SilentAfterCancel (a b : SStep) : Prop :=
  a.cause = .enter .cancel → ∀ f, b.out.hook = some f →
  f.isSubmit = false

structure Fidelity (tr : List SStep) (s : KlStream) (st : List Frame) : Prop where
  counts : Counts (admissions tr) s st
  refusals : ∀ x ∈ tr, CleanRefusal x
  sent : submissions tr = s.w.flying
  failed : ∀ x ∈ tr, x.out.state.w.wqErr = true → s.w.wqErr = true
  afterFailure : tr.Pairwise SilentAfterFailure
  cancelled : ∀ x ∈ tr, x.cause = .enter .cancel → Stopped s
  idle : s.c.closeState = .closed → s.w.sendInflight = false
  afterCancel : tr.Pairwise SilentAfterCancel

theorem Fidelity.start (u : Setup) : Fidelity [] u.stream [] where
  counts := ⟨rfl, Nat.zero_le _⟩
  refusals := by simp
  sent := by simp [submissions, Setup.stream_eq, KlStreamWrite.flying]
  failed := by simp
  afterFailure := .nil
  cancelled := by simp
  idle := by simp [Setup.stream_eq]
  afterCancel := .nil

/-- A hook of the transport is called only while the write side has not failed. -/
theorem transport_hook {adm han : List UInt8} {ack : Nat} {o : SOut} {f : Frame}
    (hw : WriteInv o.state.w (writeFrames (o.stack st)))
    (hb : BytesInv adm han ack o.state.w (writeFrames (o.stack st))) (ho : o.hook = some f)
    (hf : f.isTransport = true) : o.state.w.wqErr = false := by
  have hmem (hfac : f.facet = .write) : writeFrames (o.stack st) = f :: writeFrames st := by
    simp [Out.stack_eq, ho, writeFrames, hfac]
  cases f with
  | submit len k =>
    rw [hmem rfl] at hw
    exact hw.of_submit.2.2.2
  | writeDirect data => exact hb.writer (.writeDirect data) (by simp [hmem rfl]) rfl
  | flushPush => exact hb.writer .flushPush (by simp [hmem rfl]) rfl
  | _ => cases hf

theorem Fidelity.step {st₀ : List Frame} {x : SStep} (h : Fidelity tr s st₀) (hb : Base u tr s st₀)
    (hb' : Base u (tr ++ [x]) x.out.state (x.out.stack st))
    (hw' : WriteBytes (tr ++ [x]) x.out.state (x.out.stack st)) (hk : s.w.Keeps x.out.state.w)
    (hcounts : Counts (admitStep (admissions tr) x) x.out.state (x.out.stack st))
    (hrefusal : CleanRefusal x)
    (hsent : After (Flies (if endsSubmission x then s.w.flying - 1 else s.w.flying)
      ((writeFrames st).countP Frame.isSubmit)) st x.out)
    (hstop : Stopped s ∨ x.cause = .enter .cancel → Stopped x.out.state)
    (hno : Stopped s → After (NoSubmit ((writeFrames st).countP Frame.isSubmit) s.w.sendInflight) st
      x.out)
    (hok : ∀ f, x.out.hook = some f → HookOk x.out.state f) :
    Fidelity (tr ++ [x]) x.out.state (x.out.stack st) where
  counts := by
    rw [admissions_append]
    exact hcounts
  refusals y hy := by
    rcases mem_append.mp hy with hy | hy
    · exact h.refusals y hy
    · exact mem_singleton.mp hy ▸ hrefusal
  sent := by
    rw [submissions_append, h.sent]
    exact (Flies.flying_eq hsent).symm
  failed y hy herr := by
    rcases mem_append.mp hy with hy | hy
    · exact hk.wqErr (h.failed y hy herr)
    · exact mem_singleton.mp hy ▸ herr
  afterFailure := by
    refine pairwise_append.mpr ⟨h.afterFailure, pairwise_singleton _ _, ?_⟩
    intro a ha b hx herr f hf
    rw [mem_singleton.mp hx] at hf
    have herr := hk.wqErr (h.failed a ha herr)
    cases hft : f.isTransport with
    | false => rfl
    | true =>
      rw [transport_hook hw'.1 hw'.2 hf hft] at herr
      cases herr
  cancelled y hy hc := by
    rcases mem_append.mp hy with hy | hy
    · exact hstop (.inl (h.cancelled y hy hc))
    · exact hstop (.inr (mem_singleton.mp hy ▸ hc))
  idle hcl := by
    by_cases hpre : s.c.closeState = .closed
    · refine Bool.eq_false_iff.mpr fun hi => ?_
      have := (hno (.inr hpre)).2 hi
      rw [h.idle hpre] at this
      cases this
    · exact idle_of_closed hb hb' hpre hcl hok
  afterCancel := by
    refine pairwise_append.mpr ⟨h.afterCancel, pairwise_singleton _ _, ?_⟩
    intro a ha b hx hc f hf
    rw [mem_singleton.mp hx] at hf
    exact NoSubmit.hook (hno (h.cancelled a ha hc)) f hf

/-- Everything a run with a quiet writer keeps. -/
def WriteRun (u : Setup) (tr : List SStep) (s : KlStream) (st : List Frame) : Prop :=
  (Base u tr s st ∧ WriteBytes tr s st) ∧ Fidelity tr s st

/-- A stopped stream refuses writes. -/
theorem Stopped.refusing (hb : Base u tr s st) (h : Stopped s) : s.c.wqClosing = true := by
  refine hb.refusing ?_
  rcases h with h | h
  · exact hb.close.abort h
  · rw [h]
    nofun

/-- Every stretch keeps the account of the write side. -/
theorem WriteRun.preserves (u : Setup) {P : SConfig → SAct → Prop}
    (hP : ∀ c a, P c a → WriterQuiet c a) : machine.Preserves P (WriteRun u) := by
  have hI : machine.Preserves P (fun tr s st => Base u tr s st ∧ WriteBytes tr s st) :=
    (Base.preserves u P).and (WriteBytes.preserves hP)
  refine hI.strengthen ?_ ?_
  · intro tr s st op hpre h hp
    obtain ⟨hb', hw'⟩ := hI.enter tr s st op hpre hp
    obtain ⟨hb, hw, -⟩ := hpre
    refine h.step hb hb' hw' (enter_keeps op s)
      (h.counts.enter hw op) (.enter hw op) (Flies.enter hw op _) ?_ ?_ ?_
    · exact fun hs => Stopped.enter hb op (hs.imp_right fun hc => by cases hc; rfl)
    · exact fun hs => NoSubmit.enter hs (hs.refusing hb) h.idle op
    · exact fun f hf => hookOk_enter (Out.eq_call hf)
  · intro tr s st f v hpre h hp
    obtain ⟨hb', hw'⟩ := hI.resume tr s st f v hpre hp
    obtain ⟨hb, hw, hbytes⟩ := hpre
    refine h.step hb hb' hw' (afterHook_keeps f v s)
      (h.counts.resume hw hbytes v) (.resume s f v) (Flies.afterHook hw v _) ?_ ?_ ?_
    · exact fun hs => (hs.resolve_right nofun).of_ends (afterHook_ends s f v)
    · exact fun hs => NoSubmit.afterHook hw hs h.idle v
    · exact fun g hg => hookOk_afterHook (Out.eq_call hg)

theorem WriteRun.of_reach {c : SConfig} (hc : machine.Reach WriterQuiet u.stream c) :
    WriteRun u c.trace c.state c.stack :=
  hc.invariant ⟨⟨.start u, .start u⟩, .start u⟩ (WriteRun.preserves u fun _ _ h => h)

/-- The write contract, in every run in which the readiness writer starts no write
and no flush. The transport takes a prefix of the bytes of the writes that returned
ACCEPTED, of the one that failed for good and of the one that is running, in the
order of the calls. A write that was told WOULD_BLOCK, TOO_LARGE or CLOSED took
nothing. One submission at most is outstanding. Outside of `submit_fn`, what is
pending was admitted and is not acknowledged. After a failure the transport is not
called again, and after a cancel nothing is submitted. -/
theorem write_faithful (u : Setup) (c : SConfig) (hc : machine.Reach WriterQuiet u.stream c) :
    handed c.trace <+: (admissions c.trace).flatMap Admission.data ∧
    (admissions c.trace).countP Admission.isRunning = c.stack.countP Frame.isWrite ∧
    c.stack.countP Frame.isWrite ≤ 1 ∧
    (admissions c.trace).countP Admission.isFailed ≤ c.state.w.wqErr.toNat ∧
    (∀ x ∈ c.trace, CleanRefusal x) ∧
    submissions c.trace ≤ 1 ∧
    (c.stack.countP Frame.isSubmit = 0 →
      acked c.trace + c.state.w.pending ≤ ((admissions c.trace).flatMap Admission.data).length) ∧
    c.trace.Pairwise SilentAfterFailure ∧ c.trace.Pairwise SilentAfterCancel := by
  obtain ⟨⟨-, hw, hb⟩, h⟩ := WriteRun.of_reach hc
  rw [admissions_data]
  refine ⟨hb.taken, h.counts.running, countP_isWrite_le hw hb, h.counts.failed, h.refusals, ?_, ?_,
    h.afterFailure, h.afterCancel⟩
  · rw [h.sent]
    exact flying_le _
  · intro hst
    have hs : c.state.w.submitting = false := by
      have := hw.submits
      rw [countP_writeFrames Frame.isSubmit_facet, hst] at this
      cases hs : c.state.w.submitting with
      | false => rfl
      | true => simp [hs] at this
    exact Nat.le_trans (Nat.add_le_add_left (KlStreamWrite.pending_le_unacked hs) _) hb.bound

/-- Two writes, the second of which does not fit, and the completion of the first. -/
theorem write_faithful_completed : ∃ c, machine.run WriterQuiet (Machine.start copyingSetup.stream)
        [.call (.write (.bytes [1, 2, 3])), .ret 0, .call (.write (.bytes [4, 5])),
          .call (.write (.bytes [6, 7, 8])), .call (.onWriteComplete true), .ret 0] = some c ∧
      handed c.trace = [1, 2, 3, 4, 5] ∧
      handed c.trace <+: (admissions c.trace).flatMap Admission.data ∧ submissions c.trace ≤ 1 := by
  refine Machine.exists_run ⟨_, rfl, fun hc => ?_⟩
  obtain ⟨htaken, -, -, -, -, hsent, -⟩ := write_faithful copyingSetup _ hc
  exact ⟨by decide, htaken, hsent⟩

/-- A write whose submission fails returns ERROR, and its bytes stay pending although
no write was accepted. -/
theorem failed_write_pending : ∃ c, machine.run WriterQuiet (Machine.start copyingSetup.stream)
        [.call (.write (.bytes [1, 2, 3])), .ret (-1)] = some c ∧
      c.stack = [] ∧ accepted c.trace = [] ∧ acked c.trace = 0 ∧ c.state.w.pending = 3 :=
  ⟨_, rfl, by decide, by decide, by decide, by decide⟩

end KlStream
