-- SUMMARY: A closing stream has something left that will drive it.
import Keel.Stream.Detach

/-!
# A close does not get stuck

Every path that retires an operation has to re-check the close. Most do; five hooks
are called by code that does not look at the close when they return. `Unstuck` says
that while a closing stream has retired everything, a frame that will re-check the
close is on the stack, so when the outermost call has returned there is none.
-/

open Reentrant

namespace Frame

/-- Whatever the hook returns, the close is checked again after it, or an operation
is outstanding. -/
def rechecks : Frame → Bool
  | .cancelRecv | .cancelSend | .flushWritable _ | .completeWritable _ => true
  | .closeDisarm .closeCommon | .deliver _ _ .onRecv | .arm .onRecv => true
  | _ => false

/-- Hooks whose caller (`kl_stream_write`, `kl_stream_read_start`, `kl_stream_resume`,
`kl_stream_pause`, `kl_stream_read_close`) does not look at the close afterwards. -/
def silent : Frame → Bool
  | .submit _ (.write _) | .writeDirect _ | .arm .plain | .pauseDisarm | .closeDisarm .readClose =>
    true
  | _ => false

end Frame

namespace KlStream

/-- Nothing on the write side keeps a close waiting. -/
def writeRetired (s : KlStream) : Bool :=
  !s.w.sendInflight && (s.c.closeAbort || s.w.wqErr || s.w.pending = 0)

/-- The pump leaves no send in flight when the `submit_fn` it called for `len` bytes
returns `v`: the send failed, at once or inline, or it completed inline and no other
follows. -/
def endsSend (s : KlStream) (len : Nat) (v : Int) : Bool :=
  v ≠ 0 || (s.w.inlineDone && (!s.w.inlineOk || s.c.closeAbort || s.w.wq.buffered ≤ len))

/-- The silent hook `f`, by returning `v`, ends the last operation a closing stream
waits for: a send that is followed by no other, a writer that fails, an arm that
fails, a receive that is disarmed. -/
def endsLast (s : KlStream) (f : Frame) (v : Int) : Bool :=
  match f with
  | .submit len (.write _) => !s.r.recvInflight && s.endsSend len v
  | .writeDirect data => !s.r.recvInflight && (v < 0 || data.length < v.toNat)
  | .arm .plain => v < 0 && !s.r.completedInline && s.writeRetired
  | .pauseDisarm | .closeDisarm .readClose => s.writeRetired
  | _ => false

/-- No hook of a silent caller ends the last thing a closing stream waits for,
unless a frame below it will check the close. -/
def NoSilentRetirement (c : SConfig) : SAct → Prop
  | .call _ => True
  | .ret v =>
    match c.stack with
    | [] => True
    | f :: rest => c.state.c.closeState = .closing → c.state.endsLast f v = true →
        rest.any Frame.rechecks = true

instance (c : SConfig) : ∀ a, Decidable (NoSilentRetirement c a)
  | .call _ => inferInstanceAs (Decidable True)
  | .ret v => by
    unfold NoSilentRetirement
    cases c.stack with
    | nil => exact inferInstanceAs (Decidable True)
    | cons f rest =>
      exact inferInstanceAs (Decidable (c.state.c.closeState = .closing →
        c.state.endsLast f v = true → rest.any Frame.rechecks = true))

/-- The close facet of a stream that is closing. -/
structure Closing (s : KlStream) : Prop where
  state : s.c.closeState = .closing
  inited : s.c.closeInited = true
  wqClosing : s.c.wqClosing = true
  readClosed : s.r.readClosed = true

variable {u : Setup}

theorem Base.closing {tr : List SStep} {s : KlStream} {st : List Frame}
    (h : Base u tr s st) (hs : s.c.closeState = .closing) : Closing s where
  state := hs
  inited := h.close.inited
  wqClosing := h.refusing (by rw [hs]; nofun)
  readClosed := (h.begun (.inl (by rw [hs]; nofun))).2

/-- What a stretch of code does to the retirement of a closing stream: it checks the
close, calls a hook after which the close is checked, leaves an operation
outstanding, or retires nothing (`K`). -/
inductive Settles (K : Prop) (s : KlStream) : SOut → Prop where
  | finalize {s' : KlStream} (ret : Ret) : Settles K s (s'.closeFinalize ret)
  | hook {s' : KlStream} {f : Frame} : f.rechecks = true → Settles K s (.call s' f)
  | busy {o : SOut} : o.state.fullyRetired = false → Settles K s o
  | same {o : SOut} : K → (o.state.fullyRetired = true → s.fullyRetired = true) →
      Settles K s o

section

variable {s s' : KlStream} {K : Prop}

theorem Settles.onRetire (h : Closing s) (ret : Ret) (hc : s'.c = s.c) :
    Settles K s (s'.onRetire ret) := by
  unfold KlStream.onRetire
  rw [hc, if_pos h.inited]
  exact .finalize ret

theorem Settles.completeTail (h : Closing s) (r : Int) (hc : s'.c = s.c) :
    Settles K s (s'.completeTail r) := by
  unfold KlStream.completeTail
  rw [if_neg (by simp [writableEdge, hc, h.wqClosing])]
  exact .onRetire h _ hc

theorem fullyRetired_of_send (h : s.w.sendInflight = true) : s.fullyRetired = false := by
  unfold fullyRetired
  split <;> rfl

theorem fullyRetired_of_recv (h : s.r.recvInflight = true) : s.fullyRetired = false := by
  unfold fullyRetired
  rw [if_pos h]

section

variable (h : Closing s)
include h

theorem Settles.pumpCompletion (hc : s'.c = s.c) : Settles K s (s'.pumpCompletion .complete) := by
  unfold KlStream.pumpCompletion
  split_ifs
  · exact .completeTail h _ hc
  · exact .completeTail h _ hc
  · exact .completeTail h _ hc
  · exact .completeTail h _ hc
  · exact .busy (fullyRetired_of_send rfl)

theorem Settles.submitted (len : Nat) (r : Int) : Settles K s (s.submitted len r .complete) := by
  unfold KlStream.submitted
  split_ifs
  · exact .completeTail h _ rfl
  · exact .completeTail h _ rfl
  · exact .completeTail h _ rfl
  · exact .pumpCompletion h rfl

theorem Settles.onWriteComplete (hk : K) (ok : Bool) : Settles K s (s.onWriteComplete ok) := by
  unfold KlStream.onWriteComplete
  split
  · exact .same hk id
  split
  · exact .same hk id
  next hi =>
  split
  · exact .busy (fullyRetired_of_send (by simpa using hi))
  · split
    · exact .completeTail h _ rfl
    · exact .pumpCompletion h rfl

theorem Settles.armRet (r : Int) (hc : s'.c = s.c) : Settles K s (s'.armRet r .onRecv) := by
  simp only [KlStream.armRet]
  split
  · exact .onRetire h _ hc
  · next hi => exact .busy (fullyRetired_of_recv (by simpa using hi))

/-- A closed read side arms no more. -/
theorem Settles.armed (rc : Int) : Settles K s (s.armed rc .onRecv) := by
  unfold KlStream.armed
  split_ifs
  · unfold KlStream.armLoop
    rw [if_pos (by simp [h.readClosed])]
    exact .armRet h _ rfl
  · exact .armRet h _ rfl
  · exact .armRet h _ rfl
  · exact .armRet h _ rfl

theorem Settles.delivered (ok : Bool) : Settles K s (s.delivered ok .onRecv) := by
  unfold KlStream.delivered
  rw [if_pos (show (s.r.readClosed || s.r.readPaused) = true by simp [h.readClosed])]
  split
  · exact .armRet h _ rfl
  · exact .armRet h _ rfl

theorem Settles.onRecv (hk : K) (len : Nat) (ok : Bool) : Settles K s (s.onRecv len ok) := by
  unfold KlStream.onRecv
  split
  · exact .same hk id
  split
  · exact .same hk id
  · rw [if_pos h.readClosed]
    exact .onRetire h _ rfl

end

theorem Settles.closeCancelled : Settles K s s'.closeCancelled := .finalize _

theorem Settles.closeCancelSend : Settles K s s'.closeCancelSend := by
  unfold KlStream.closeCancelSend
  split
  · exact .hook rfl
  · exact .closeCancelled

theorem Settles.closeCancels : Settles K s s'.closeCancels := by
  unfold KlStream.closeCancels
  split_ifs
  · exact .hook rfl
  · exact .closeCancelSend
  · exact .finalize _

theorem Settles.readClose : Settles K s (s'.readClose .closeCommon) := by
  unfold KlStream.readClose
  split_ifs
  · exact .closeCancels
  · exact .hook rfl
  · exact .closeCancels
  · exact .closeCancels

/-- `stream_close_common` checks the close, unless it is over. -/
theorem Settles.closeCommon (hi : s.c.closeInited = true) (hs : s.c.closeState ≠ .closed)
    (abort : Bool) : Settles K s (s.closeCommon abort) := by
  unfold KlStream.closeCommon
  rw [if_neg (by simp [hi]), if_neg hs]
  split_ifs
  · exact .readClose
  · exact .closeCancels
  · exact .closeCancels

variable {w : KlStreamWrite}

/-- A queue that still holds bytes keeps a graceful close waiting, and did before. -/
theorem retired_of_pending (hi : w.sendInflight = s.w.sendInflight)
    (he : w.wqErr = s.w.wqErr) (hp : w.pending ≠ 0)
    (h : ({ s with w } : KlStream).fullyRetired = true) : s.fullyRetired = true := by
  obtain ⟨hr, hs, hq⟩ := fullyRetired_iff.mp h
  refine fullyRetired_iff.mpr ⟨hr, hi ▸ hs, ?_⟩
  rcases hq with hab | herr | hz
  · exact .inl hab
  · exact .inr (.inl (he ▸ herr))
  · exact absurd hz hp

theorem pending_ne_zero (hin : w.wqInited = true) (hb : w.wq.buf ≠ []) : w.pending ≠ 0 :=
  fun h => hb (KlStreamWrite.buf_of_pending hin h)

theorem Settles.flushEdge (h : Closing s) {r : Int} (hc : s'.c = s.c)
    (hk : r = 1 → K ∧ (s'.fullyRetired = true → s.fullyRetired = true)) :
    Settles K s (s'.flushEdge r) := by
  unfold KlStream.flushEdge
  rw [if_neg (by simp [writableEdge, hc, h.wqClosing])]
  split
  · exact .onRetire h _ hc
  · next hr =>
    obtain ⟨hk, hret⟩ := hk (not_not.mp hr)
    exact .same hk hret

theorem Settles.flush (h : Closing s) (hk : K) : Settles K s s.flush := by
  unfold KlStream.flush
  split_ifs
  · exact .same hk id
  · exact .same hk id
  · exact .flushEdge h rfl nofun
  · exact .flushEdge h rfl nofun
  · exact .same hk id

theorem Settles.flushPushed (h : Closing s) (hk : K) (hin : s.w.wqInited = true) (n : Int) :
    Settles K s (s.flushPushed n) := by
  obtain ⟨heq, -⟩ | ⟨heq, -⟩ | ⟨heq, -, hne⟩ := flushPushed_cases s n
  · rw [heq]
    exact .flushEdge h rfl nofun
  · rw [heq]
    refine .flushEdge h rfl fun hr => ⟨hk, retired_of_pending rfl rfl (pending_ne_zero hin ?_)⟩
    intro hnil
    simp only [KlStreamWrite.setQueue, KlDrain.setBuf] at hnil
    simp [hnil] at hr
  · rw [heq]
    exact .same hk (retired_of_pending rfl rfl (pending_ne_zero hin hne))

/-- The entered operations. -/
theorem Settles.enter (h : Closing s) (hk : K) (op : Op) : Settles K s (enter op s) := by
  cases op with
  | write src =>
    simp only [KlStream.enter, KlStream.write, h.wqClosing, if_true]
    split_ifs
    · exact .same hk id
    · exact .same hk id
    · exact .same hk id
  | flush => exact .flush h hk
  | onWriteComplete ok => exact .onWriteComplete h hk ok
  | readStart =>
    simp only [KlStream.enter, KlStream.readStart, h.readClosed, Bool.or_true, Bool.true_or,
      if_true]
    split
    · exact .same hk id
    · exact .same hk id
  | onRecv len ok => exact .onRecv h hk len ok
  | pause =>
    simp only [KlStream.enter, KlStream.pause]
    split_ifs
    · exact .same hk id
    · exact .same hk id
    · exact .same hk id
  | resume =>
    simp only [KlStream.enter, KlStream.resume, h.readClosed, if_true]
    split
    · exact .same hk id
    · exact .same hk id
  | readClose =>
    simp only [KlStream.enter, KlStream.readClose, h.readClosed, Bool.or_true, if_true]
    exact .same hk id
  | closeBegin => exact .closeCommon h.inited (by rw [h.state]; rintro ⟨⟩) false
  | cancel => exact .closeCommon h.inited (by rw [h.state]; rintro ⟨⟩) true

/-- The code after a hook whose caller looks at the close. -/
theorem Settles.afterHook (h : Closing s) (hin : s.w.wqInited = true) {f : Frame}
    (hf : f.silent = false) (v : Int) (hk : f.rechecks = false → K) :
    Settles K s (afterHook f v s) := by
  cases f with
  | flushPush => exact .flushPushed h (hk rfl) hin v
  | submit len k =>
    cases k with
    | write data => cases hf
    | complete => exact .submitted h len v
  | flushWritable r => exact .onRetire h _ rfl
  | completeWritable r => exact .onRetire h _ rfl
  | arm k =>
    cases k with
    | plain => cases hf
    | onRecv => exact .armed h v
  | deliver len ok k =>
    cases k with
    | plain =>
      simp only [KlStream.afterHook, KlStream.delivered, h.readClosed, Bool.true_or, if_true]
      split
      · exact .same (hk rfl) id
      · exact .same (hk rfl) id
    | onRecv => exact .delivered h ok
  | closeDisarm k =>
    cases k with
    | readClose => cases hf
    | closeCommon => exact .closeCancels
  | cancelRecv => exact .closeCancelSend
  | cancelSend => exact .closeCancelled
  | onClose r => exact .same (hk rfl) id
  | writeDirect data => cases hf
  | pauseDisarm => cases hf

end

/-! ## Silent hooks -/

section

variable {s : KlStream}

theorem fullyRetired_eq (s : KlStream) :
    s.fullyRetired = true ↔ s.r.recvInflight = false ∧ s.writeRetired = true := by
  rw [fullyRetired_iff]
  simp [writeRetired, or_assoc]

/-- A disarmed or failed receive: the write side decides. -/
theorem writeRetired_of_read {r : KlStreamRead}
    (h : ({ s with r } : KlStream).fullyRetired = true) : s.writeRetired = true :=
  ((fullyRetired_eq _).mp h).2

variable {data : List UInt8} {v : Int} {ws : List Frame}

theorem pumpCompletion_silent (hi : s.w.sendInflight = false) (herr : s.w.wqErr = false)
    (h : (s.pumpCompletion (.write data)).state.fullyRetired = true) :
    s.c.closeAbort = true ∨ s.w.wq.buffered = 0 := by
  unfold pumpCompletion at h
  rw [if_neg (by simp [herr])] at h
  split at h
  · next hab => exact .inl hab
  rw [if_neg (by simp [hi])] at h
  split at h
  · next hb => exact .inr hb
  · rw [Out.state_call, fullyRetired_of_send rfl] at h
    cases h

theorem pumpRet_write_state (s : KlStream) (r : Int) (data : List UInt8) :
    (s.pumpRet r (.write data)).state = s := by
  simp only [pumpRet]
  split <;> rfl

theorem submitted_silent {len : Nat} (hw : WriteInv s.w (.submit len (.write data) :: ws))
    (h : (s.submitted len v (.write data)).state.fullyRetired = true) :
    s.endsLast (.submit len (.write data)) v = true := by
  obtain ⟨-, hi, -, herr⟩ := hw.of_submit
  have hlen : len = s.w.inflightLen := hw.frameLen len _ (List.mem_cons_self ..)
  unfold submitted at h
  split at h
  · next hv =>
    have hr : s.r.recvInflight = false := ((fullyRetired_eq _).mp h).1
    simp [endsLast, endsSend, hr, hv]
  split at h
  · rw [pumpRet_write_state, fullyRetired_of_send (by exact hi)] at h
    cases h
  rename_i hd
  have hd : s.w.inlineDone = true := by simpa using hd
  split at h
  · next hok =>
    have hr : s.r.recvInflight = false := ((fullyRetired_eq _).mp h).1
    simp [endsLast, endsSend, hr, hd, hok]
  have hr : s.r.recvInflight = false := by
    have hf := FacetOut.pumpCompletion (s := { s with w :=
      ((s.w.submitReturned.copied len).clearInline).sendRetired }) (k := .write data) .refl rfl
    rw [← hf.within.1]
    exact ((fullyRetired_eq _).mp h).1
  have hend := pumpCompletion_silent (s := { s with w :=
    ((s.w.submitReturned.copied len).clearInline).sendRetired }) rfl herr h
  have hq : s.c.closeAbort = true ∨ s.w.wq.buffered ≤ len := by
    refine hend.imp_right fun hz => ?_
    cases hc : s.w.inflightCopying with
    | true => simpa [hc, KlDrain.buffered, Nat.sub_eq_zero_iff_le] using hz
    | false => simpa [hc, KlDrain.buffered, Nat.sub_eq_zero_iff_le, hlen] using hz
  rcases hq with hq | hq <;> simp [endsLast, endsSend, hr, hd, hq]

/-- A readiness write: the queue keeps what it had, or the rest of the write. -/
theorem writeSent_silent (hw : WriteInv s.w (.writeDirect data :: ws))
    (h : (s.writeSent data v).state.fullyRetired = true) :
    s.fullyRetired = true ∨ s.endsLast (.writeDirect data) v = true := by
  unfold writeSent at h
  obtain ⟨heq, hf⟩ | ⟨heq, -⟩ | ⟨heq, hle⟩ := KlDrain.reserveWriteSent_cases s.w.wq data v
  · rw [heq] at h
    have hr : s.r.recvInflight = false := ((fullyRetired_eq _).mp h).1
    refine .inr ?_
    rcases hf with hf | hf <;> simp [endsLast, hr, hf]
  · rw [heq] at h
    exact .inl h
  · rw [heq] at h
    refine .inl (retired_of_pending
      (w := (s.w.setQueue (s.w.wq.setBuf (data.drop v.toNat))).setBlocked false) rfl rfl
      (pending_ne_zero hw.inited ?_) h)
    intro hnil
    have := congrArg List.length hnil
    simp only [KlStreamWrite.setBlocked, KlStreamWrite.setQueue, KlDrain.setBuf, List.length_drop,
      List.length_nil] at this
    omega

/-- The return of a silent hook retires the stream only by ending the last
operation. -/
theorem afterHook_silent {f : Frame} (hcl : s.r.readClosed = true)
    (hw : f.facet = .write → WriteInv s.w (f :: ws)) (hf : f.silent = true)
    (h : (afterHook f v s).state.fullyRetired = true) :
    s.fullyRetired = true ∨ s.endsLast f v = true := by
  cases f with
  | submit len k =>
    cases k with
    | write data => exact .inr (submitted_silent (hw rfl) h)
    | complete => cases hf
  | writeDirect data => exact writeSent_silent (hw rfl) h
  | arm k =>
    cases k with
    | onRecv => cases hf
    | plain =>
      simp only [afterHook, armed, armLoop, hcl, KlStreamRead.armReturned, Bool.true_or, if_true,
        armRet] at h
      split at h
      · refine .inl ?_
        split at h
        · exact h
        · exact h
      · next hin =>
        split at h
        · next hv =>
          refine .inr ?_
          have := writeRetired_of_read h
          simp [endsLast, hv, hin, this]
        · exact .inl h
  | pauseDisarm => exact .inr (writeRetired_of_read h)
  | closeDisarm k =>
    cases k with
    | readClose => exact .inr (writeRetired_of_read h)
    | closeCommon => cases hf
  | _ => cases hf

end

/-- If everything is retired while the stream is closing, someone on the stack will
check the close. -/
def Unstuck (s : KlStream) (st : List Frame) : Prop :=
  s.c.closeState = .closing → s.fullyRetired = true → st.any Frame.rechecks = true

section

variable {tr : List SStep} {s : KlStream} {st : List Frame} {K : Prop} {o : SOut}

theorem Settles.unstuck (h : Settles K s o) (hk : K → s.fullyRetired = true →
      st.any Frame.rechecks = true)
    (hb : Base u tr o.state (o.stack st)) (hw : WriteInv o.state.w (writeFrames (o.stack st))) :
    Unstuck o.state (o.stack st) := by
  intro hs hret
  cases h with
  | @finalize s' ret =>
    obtain ⟨heq, hwait⟩ | ⟨heq, -⟩ := closeFinalize_cases s' ret
    · rw [heq] at hs hret hb hw ⊢
      simp only [Out.state_done, Out.stack_done] at hs hret hb hw ⊢
      -- finalization was held up by a cancel or a writable frame
      by_cases hc : s'.c.inCloseCancel = 0
      · have hi : s'.w.inWritable ≠ 0 := fun hi => by simp [hwait hs hc hi] at hret
        have hpos : 0 < (writeFrames st).countP Frame.isWritable := by
          rw [← hw.depth]
          exact Nat.pos_of_ne_zero hi
        obtain ⟨f, hf, hf'⟩ := List.countP_pos_iff.mp hpos
        refine List.any_eq_true.mpr ⟨f, List.mem_of_mem_filter hf, ?_⟩
        cases f <;> first | rfl | cases hf'
      · have hpos : 0 < st.countP Frame.isCancel := by
          rw [← hb.close.depth]
          exact Nat.pos_of_ne_zero hc
        obtain ⟨f, hf, hf'⟩ := List.countP_pos_iff.mp hpos
        refine List.any_eq_true.mpr ⟨f, hf, ?_⟩
        cases f <;> first | rfl | cases hf'
    · rw [heq, detach] at hs
      split at hs <;> cases hs
  | hook hf => simp [hf]
  | busy hret' => simp [hret'] at hret
  | same hkeep hret' =>
    have := hk hkeep (hret' hret)
    cases o with
    | done s' ret => exact this
    | call s' f => simp [this]

end

/-- What a run without silent retirement keeps. -/
def NotStuck (u : Setup) (tr : List SStep) (s : KlStream) (st : List Frame) : Prop :=
  (Base u tr s st ∧ WriteInv s.w (writeFrames st)) ∧ Unstuck s st

theorem NotStuck.preserves (u : Setup) {P : SConfig → SAct → Prop}
    (hP : ∀ c a, P c a → NoSilentRetirement c a) : machine.Preserves P (NotStuck u) := by
  have hI := Base.preservesWrite u P
  refine hI.strengthen ?_ ?_
  · intro tr s st op h hu hp
    obtain ⟨hb', hw'⟩ := hI.enter tr s st op h hp
    obtain ⟨hb, hw⟩ := h
    by_cases hs : s.c.closeState = .closing
    · exact (Settles.enter (hb.closing hs) trivial op).unstuck (fun _ => hu hs) hb' hw'
    intro hs' hret
    by_cases hop : op.facet = .close
    · -- only a close that begins here makes the stream close
      have hcommon (abort : Bool) (h : enter op s = s.closeCommon abort) :
          Unstuck (enter op s).state ((enter op s).stack st) := by
        rw [show machine.enter = enter from rfl] at hb' hw' hs'
        rw [h] at hb' hw' hs' ⊢
        refine (Settles.closeCommon (K := False) hb.close.inited ?_ abort).unstuck nofun hb' hw'
        intro hcl
        simp [closeCommon, hb.close.inited, hcl] at hs'
      cases op with
      | closeBegin => exact hcommon false rfl hs' hret
      | cancel => exact hcommon true rfl hs' hret
      | _ => cases hop
    · exact absurd ((FacetOut.enter s hop).ends.closing hs') hs
  intro tr s st f v h hu hp
  obtain ⟨hb', hw'⟩ := hI.resume tr s st f v h hp
  obtain ⟨hb, hw⟩ := h
  intro hs' hret
  have hs : s.c.closeState = .closing := (afterHook_ends s f v).closing hs'
  have hkeep (hf : f.rechecks = false) (hr : s.fullyRetired = true) :
      st.any Frame.rechecks = true := by
    simpa [hf] using hu hs hr
  cases hf : f.silent with
  | true =>
    have hf' : f.rechecks = false := by
      cases f with
      | closeDisarm k => cases k <;> first | rfl | cases hf
      | arm k => cases k <;> first | rfl | cases hf
      | _ => first | rfl | cases hf
    have hwf (hfac : f.facet = .write) : WriteInv s.w (f :: writeFrames st) := by
      simpa [writeFrames, hfac] using hw
    have hany : st.any Frame.rechecks = true := by
      rcases afterHook_silent (hb.closing hs).readClosed hwf hf hret with hr | hlast
      · exact hkeep hf' hr
      · exact hP _ _ hp hs hlast
    rw [Out.stack_eq, List.any_append, hany, Bool.or_true]
  | false =>
    exact (Settles.afterHook (hb.closing hs) hw.inited hf v id).unstuck hkeep hb' hw' hs' hret

theorem Unstuck.of_reach {c : SConfig}
    (hc : machine.Reach NoSilentRetirement u.stream c) : Unstuck c.state c.stack := by
  have h : NotStuck u c.trace c.state c.stack := by
    refine hc.invariant ⟨⟨.start u, .start u⟩, ?_⟩ (NotStuck.preserves u fun _ _ h => h)
    intro hs
    simp [Setup.stream_eq] at hs
  exact h.2

/-- In every run without a silent last retirement, when the outermost stream call has
returned: a closing stream has a receive or a send in flight, or a graceful close
waits for queued bytes; and a close with everything retired has called `on_close`. -/
theorem close_driven (u : Setup) (c : SConfig) (hc : machine.Reach NoSilentRetirement u.stream c)
    (hst : c.stack = []) :
    (c.state.c.closeState = .closing →
      c.state.r.recvInflight = true ∨ c.state.w.sendInflight = true ∨
        (c.state.c.closeAbort = false ∧ c.state.w.wqErr = false ∧ c.state.w.wq.buf ≠ [])) ∧
    (c.state.c.closeState ≠ .opened → c.state.fullyRetired = true →
      (hooks c.trace).countP Frame.isOnClose = 1) := by
  have hu := Unstuck.of_reach hc
  rw [hst] at hu
  have hret (hs : c.state.c.closeState = .closing) : c.state.fullyRetired ≠ true :=
    fun hr => by simpa using hu hs hr
  refine ⟨fun hs => ?_, fun hopen hr => ?_⟩
  · by_contra hnone
    obtain ⟨hrecv, hnone⟩ := not_or.mp hnone
    obtain ⟨hsend, hq⟩ := not_or.mp hnone
    refine hret hs (fullyRetired_iff.mpr ⟨by simpa using hrecv, by simpa using hsend, ?_⟩)
    cases hab : c.state.c.closeAbort with
    | true => exact .inl rfl
    | false =>
      cases herr : c.state.w.wqErr with
      | true => exact .inr (.inl rfl)
      | false =>
        have hnil : c.state.w.wq.buf = [] := by simpa [hab, herr] using hq
        refine .inr (.inr ?_)
        simp [KlStreamWrite.pending, KlDrain.buffered, hsend, hnil]
  · have hb := Base.of_reach hc
    have hclosed : c.state.c.closeState = .closed := by
      cases hs : c.state.c.closeState with
      | opened => exact absurd hs hopen
      | closing => exact absurd hr (hret hs)
      | closed => rfl
    rw [hb.close.fired, hb.close.notified.mp hclosed]
    rfl

/-- A stream whose backend copies what it is asked to send, and that has room for
four bytes. -/
def copyingSetup : Setup :=
  { mixedSetup with capacity := 4, capacity_pos := by decide, transport := .submit true }

/-- A graceful close with a send in flight. -/
theorem close_driven_inflight :
    ∃ c, machine.run NoSilentRetirement (Machine.start copyingSetup.stream)
        [.call (.write (.bytes [1, 2])), .ret 0, .call .closeBegin] = some c ∧
      c.stack = [] ∧ c.state.c.closeState = .closing ∧
      (c.state.r.recvInflight = true ∨ c.state.w.sendInflight = true ∨
        (c.state.c.closeAbort = false ∧ c.state.w.wqErr = false ∧ c.state.w.wq.buf ≠ [])) := by
  refine Machine.exists_run ⟨_, rfl, fun hc => ⟨by decide, by decide, ?_⟩⟩
  exact (close_driven copyingSetup _ hc (by decide)).1 (by decide)

/-- A close begun inside `submit_fn`, which then fails: `kl_stream_write` returns
ERROR without looking at the close. Everything is retired, `on_close` was not
called, and no completion is due that would call it. -/
theorem close_stuck_after_submit_failure :
    ∃ c, machine.run Machine.Any (Machine.start copyingSetup.stream)
        [.call (.write (.bytes [1, 2])), .call .closeBegin, .ret (-1)] = some c ∧
      c.stack = [] ∧ c.state.c.closeState = .closing ∧ c.state.fullyRetired = true ∧
      (hooks c.trace).countP Frame.isOnClose = 0 :=
  ⟨_, rfl, by decide, by decide, by decide, by decide⟩

end KlStream
