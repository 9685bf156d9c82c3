-- SUMMARY: The close lifecycle over whole runs: on_close fires once, at the end.
import Keel.Stream.FacetIsolation

/-!
# Confirmed detachment

`CloseInv` ties the close facet to what can be seen from outside: the hooks called
so far and the hooks still on the stack. It is kept by every stretch of code, in
any mode and with any re-entrancy.
-/

open Reentrant

namespace Frame

def isOnClose : Frame → Bool
  | .onClose _ => true
  | _ => false

def isCancel : Frame → Bool
  | .cancelRecv | .cancelSend => true
  | _ => false

def isArm : Frame → Bool
  | .arm _ => true
  | _ => false

def isSubmit : Frame → Bool
  | .submit _ _ => true
  | _ => false

end Frame

/-- How often `ev` happened since the last `reset`. -/
def countSince (reset ev : Frame → Bool) (fs : List Frame) : Nat :=
  fs.foldl (fun n f => if reset f then 0 else if ev f then n + 1 else n) 0

/-- Calls of `cancel_recv` since the last receive was posted. -/
def recvCancels (fs : List Frame) : Nat := countSince Frame.isArm (· = .cancelRecv) fs

/-- Calls of `cancel_send` since the last send was posted. -/
def sendCancels (fs : List Frame) : Nat := countSince Frame.isSubmit (· = .cancelSend) fs

/-- One more hook on the trace. -/
theorem countSince_append (reset ev : Frame → Bool) (fs : List Frame) (f : Frame) :
    countSince reset ev (fs ++ [f]) =
      if reset f then 0 else if ev f then countSince reset ev fs + 1
      else countSince reset ev fs := by
  simp [countSince]

/-- The close goes on as it was, or it ends. -/
structure KlStreamClose.Ends (c c' : KlStreamClose) : Prop where
  state : c'.closeState = c.closeState ∨ (c.closeState = .closing ∧ c'.closeState = .closed)
  abort : c'.closeAbort = c.closeAbort
  wqClosing : c'.wqClosing = c.wqClosing

variable {c c' : KlStreamClose}

theorem KlStreamClose.Ends.rfl : c.Ends c :=
  ⟨.inl (Eq.refl _), Eq.refl _, Eq.refl _⟩

/-- A facet that is open has been so. -/
theorem KlStreamClose.Ends.opened (h : c.Ends c') :
    c'.closeState = .opened ↔ c.closeState = .opened := by
  obtain h | ⟨h, h'⟩ := h.state
  · rw [h]
  · simp [h, h']

theorem KlStreamClose.Ends.closing (h : c.Ends c')
    (hs : c'.closeState = .closing) : c.closeState = .closing := by
  obtain h | ⟨-, h'⟩ := h.state
  · rw [← h, hs]
  · rw [h'] at hs
    cases hs

theorem KlStreamClose.Ends.closed (h : c.Ends c')
    (hs : c.closeState = .closed) : c'.closeState = .closed := by
  obtain h | ⟨-, h'⟩ := h.state
  · rw [h, hs]
  · exact h'

namespace KlStream

structure CloseInv (fs : List Frame) (c : KlStreamClose) (st : List Frame) : Prop where
  inited : c.closeInited = true
  depth : c.inCloseCancel = st.countP Frame.isCancel
  notified : c.closeState = .closed ↔ c.closeNotified = true
  refuses : c.closeState = .opened ↔ c.wqClosing = false
  abort : c.closeAbort = true → c.closeState ≠ .opened
  fired : fs.countP Frame.isOnClose = c.closeNotified.toNat
  onStack : st.countP Frame.isOnClose ≤ c.closeNotified.toNat
  recv : recvCancels fs = c.recvCancelRequested.toNat
  send : sendCancels fs = c.sendCancelRequested.toNat

section

variable {fs st : List Frame} {s : KlStream} {f : Frame}

/-- A hook that is no cancel and not `on_close` is called. -/
theorem CloseInv.call (h : CloseInv fs c st) (hf : f.facet ≠ .close) :
    CloseInv (fs ++ [f]) (c.post f) (f :: st) := by
  have hr := h.recv
  have hs := h.send
  unfold recvCancels at hr
  unfold sendCancels at hs
  cases f with
  | cancelRecv => exact absurd rfl hf
  | cancelSend => exact absurd rfl hf
  | onClose r => exact absurd rfl hf
  | _ =>
    constructor
    · simpa [KlStreamClose.post] using h.inited
    · simpa [KlStreamClose.post, Frame.isCancel] using h.depth
    · simpa [KlStreamClose.post] using h.notified
    · simpa [KlStreamClose.post] using h.refuses
    · simpa [KlStreamClose.post] using h.abort
    · simpa [KlStreamClose.post, Frame.isOnClose] using h.fired
    · simpa [KlStreamClose.post, Frame.isOnClose] using h.onStack
    · simp [recvCancels, countSince_append, KlStreamClose.post, Frame.isArm, hr]
    · simp [sendCancels, countSince_append, KlStreamClose.post, Frame.isSubmit, hs]

/-- A frame other than a cancellation returns. -/
theorem CloseInv.pop (h : CloseInv fs c (f :: st)) (hf : f.isCancel = false) : CloseInv fs c st :=
  { h with
    depth := by simpa [hf] using h.depth
    onStack := Nat.le_trans ((List.sublist_cons_self f st).countP_le) h.onStack }

/-- A cancel hook returned: the frame below it is one level less deep. -/
theorem CloseInv.popCancel (h : CloseInv fs c (f :: st)) (hf : f.isCancel = true) :
    CloseInv fs c.leaveCancel st ∧ c = c.leaveCancel.enterCancel := by
  have hd := h.depth
  rw [List.countP_cons_of_pos hf] at hd
  constructor
  · exact { h with
    depth := by simp [hd]
    onStack := Nat.le_trans ((List.sublist_cons_self f st).countP_le) h.onStack }
  · obtain ⟨⟩ := c
    simp_all

/-- The finalization fires `on_close` once, with nothing left to wait for. -/
theorem CloseInv.finalize (h : CloseInv fs s.c st) (ret : Ret) :
    CloseInv (fs ++ (s.closeFinalize ret).hook.toList) (s.closeFinalize ret).state.c
      ((s.closeFinalize ret).stack st) := by
  obtain ⟨heq, -⟩ | ⟨heq, hcl, -, -, -⟩ := closeFinalize_cases s ret
  · simpa [heq] using h
  have hn : s.c.closeNotified = false := by
    have := h.notified
    simp_all
  rw [heq, detach, if_pos (by simp [hn])]
  constructor
  · exact h.inited
  · simpa [Frame.isCancel] using h.depth
  · simp
  · have := h.refuses
    simp_all
  · simp
  · simp [h.fired, hn, Frame.isOnClose]
  · simpa [hn, List.countP_cons, Frame.isOnClose] using h.onStack
  · simpa [recvCancels, countSince_append, Frame.isArm] using h.recv
  · simpa [sendCancels, countSince_append, Frame.isSubmit] using h.send

/-- The last cancellation leaves the frame of the cancel. -/
theorem CloseInv.cancelled (h : CloseInv fs c st) (hs : s.c = c.enterCancel) :
    CloseInv (fs ++ s.closeCancelled.hook.toList) s.closeCancelled.state.c
      (s.closeCancelled.stack st) := by
  have hc : CloseInv fs ({ s with c := s.c.leaveCancel } : KlStream).c st := by simpa [hs] using h
  exact hc.finalize _

/-- The send is cancelled inside the frame. -/
theorem CloseInv.cancelSend (h : CloseInv fs c st) (hs : s.c = c.enterCancel) :
    CloseInv (fs ++ s.closeCancelSend.hook.toList) s.closeCancelSend.state.c
      (s.closeCancelSend.stack st) := by
  unfold closeCancelSend
  split
  · next hq =>
    have hreq : c.sendCancelRequested = false := by
      simp_all
    have hn := h.send
    simp only [hreq, Bool.toNat_false] at hn
    constructor
    · simpa [hs] using h.inited
    · simp [hs, h.depth, List.countP_cons, Frame.isCancel]
    · simpa [hs] using h.notified
    · simpa [hs] using h.refuses
    · simpa [hs] using h.abort
    · simpa [hs, Frame.isOnClose] using h.fired
    · simpa [hs, Frame.isOnClose] using h.onStack
    · simpa [hs, recvCancels, countSince_append, Frame.isArm] using h.recv
    · simp only [sendCancels] at hn
      simp [hs, sendCancels, countSince_append, Frame.isSubmit, hn]
  · exact h.cancelled hs

/-- A cancellation of both operations. -/
theorem CloseInv.cancels (h : CloseInv fs s.c st) :
    CloseInv (fs ++ s.closeCancels.hook.toList) s.closeCancels.state.c
    (s.closeCancels.stack st) := by
  unfold closeCancels
  split_ifs
  · next hq =>
    have hreq : s.c.recvCancelRequested = false := by
      simp_all
    have hn := h.recv
    simp only [hreq, Bool.toNat_false] at hn
    constructor
    · simpa using h.inited
    · simp [h.depth, List.countP_cons, Frame.isCancel]
    · simpa using h.notified
    · simpa using h.refuses
    · simpa using h.abort
    · simpa [Frame.isOnClose] using h.fired
    · simpa [Frame.isOnClose] using h.onStack
    · simp only [recvCancels] at hn
      simp [recvCancels, countSince_append, Frame.isArm, hn]
    · simpa [sendCancels, countSince_append, Frame.isSubmit] using h.send
  · exact CloseInv.cancelSend h rfl
  · exact h.finalize _

theorem CloseInv.facetOut {F : Facet} {n : Bool} {o : SOut} (h : CloseInv fs s.c st)
    (ho : FacetOut F n s o) :
    CloseInv (fs ++ o.hook.toList) o.state.c (o.stack st) := by
  cases ho with
  | done ret hw hc => simpa [hc] using h
  | call f hw hf hc => simpa [hc] using h.call hf.2.1
  | @retire s' ret hw hc hn => exact CloseInv.finalize (hc ▸ h) ret

/-- The read side is closed on the way. -/
theorem CloseInv.readClose (h : CloseInv fs s.c st) :
    CloseInv (fs ++ (s.readClose .closeCommon).hook.toList) (s.readClose .closeCommon).state.c
      ((s.readClose .closeCommon).stack st) := by
  unfold KlStream.readClose
  split_ifs
  · exact h.cancels
  · exact h.call nofun
  · exact CloseInv.cancels h
  · exact CloseInv.cancels h

/-- The close begins, and has fired nothing. -/
theorem CloseInv.begin (h : CloseInv fs c st) (ho : c.closeState = .opened) (abort : Bool) :
    CloseInv fs (c.escalate abort).beginClosing st := by
  have hn := h.notified
  exact { h with
    notified := by simp_all
    refuses := by simp
    abort := by simp }

/-- `kl_stream_close_begin` and `kl_stream_cancel`. -/
theorem CloseInv.closeCommon (h : CloseInv fs s.c st) (abort : Bool) :
    CloseInv (fs ++ (s.closeCommon abort).hook.toList) (s.closeCommon abort).state.c
      ((s.closeCommon abort).stack st) := by
  unfold KlStream.closeCommon
  split
  · simpa using h
  split
  · simpa using h
  split
  · next ho =>
    split
    · exact CloseInv.readClose (h.begin ho abort)
    · exact CloseInv.cancels (h.begin ho abort)
  · next ho =>
    have he : CloseInv fs (s.c.escalate abort) st := { h with abort := fun _ => ho }
    exact CloseInv.cancels he

end

/-- A close was begun, gracefully or not. -/
def CloseBegun (tr : List SStep) : Prop :=
  ∃ st ∈ tr, st.cause = .enter .closeBegin ∨ st.cause = .enter .cancel

/-- A close that has begun stays begun. -/
theorem CloseBegun.append {tr : List SStep} (h : CloseBegun tr) (st : SStep) :
    CloseBegun (tr ++ [st]) := by
  obtain ⟨x, hx, hc⟩ := h
  exact ⟨x, List.mem_append_left _ hx, hc⟩

/-- What every run keeps: the setup, the close lifecycle, and that a close that was
begun has closed the read side. -/
structure Base (u : Setup) (tr : List SStep) (s : KlStream) (st : List Frame) : Prop where
  close : CloseInv (hooks tr) s.c st
  begun : s.c.closeState ≠ .opened ∨ st.any Frame.inCommon = true →
    CloseBegun tr ∧ s.r.readClosed = true
  read : u.stream.r.Keeps s.r
  write : u.stream.w.Keeps s.w

/-- A stream that was just set up. -/
theorem Base.start (u : Setup) : Base u [] u.stream [] where
  close := by constructor <;> simp [Setup.stream_eq, hooks, recvCancels, sendCancels, countSince]
  begun := by simp [Setup.stream_eq]
  read := .rfl
  write := .rfl

section

variable {u : Setup} {tr : List SStep} {s : KlStream} {st : List Frame} {F : Facet}
  {n : Bool} {o : SOut}

/-- A stream whose close was begun refuses writes. -/
theorem Base.refusing (h : Base u tr s st) (hs : s.c.closeState ≠ .opened) :
    s.c.wqClosing = true := by
  cases hwq : s.c.wqClosing with
  | true => rfl
  | false => exact absurd (h.close.refuses.mpr hwq) hs

theorem closeFinalize_ends (s : KlStream) (ret : Ret) : s.c.Ends (s.closeFinalize ret).state.c := by
  obtain ⟨h, -⟩ | ⟨h, hs, -⟩ := closeFinalize_cases s ret
  · rw [h]
    exact .rfl
  · rw [h, detach]
    split
    · exact ⟨.inr ⟨hs, rfl⟩, rfl, rfl⟩
    · exact ⟨.inr ⟨hs, rfl⟩, rfl, rfl⟩

/-- Another facet may end the close and does nothing else to it. -/
theorem FacetOut.ends (ho : FacetOut F n s o) : s.c.Ends o.state.c := by
  cases ho with
  | done ret hw hc => exact hc ▸ .rfl
  | call f hw hf hc =>
    rw [Out.state_call, hc]
    cases f <;> exact ⟨.inl rfl, rfl, rfl⟩
  | @retire s' ret hw hc hn => exact hc ▸ closeFinalize_ends s' ret

theorem closeCancelSend_ends (s : KlStream) : s.c.Ends s.closeCancelSend.state.c := by
  unfold closeCancelSend
  split
  · exact ⟨.inl rfl, rfl, rfl⟩
  · obtain ⟨hs, ha, hw⟩ := closeFinalize_ends { s with c := s.c.leaveCancel } (.int 0)
    exact ⟨hs, ha, hw⟩

theorem closeCancels_ends (s : KlStream) : s.c.Ends s.closeCancels.state.c := by
  unfold closeCancels
  split_ifs
  · exact ⟨.inl rfl, rfl, rfl⟩
  · obtain ⟨hs, ha, hw⟩ := closeCancelSend_ends { s with c := s.c.enterCancel }
    exact ⟨hs, ha, hw⟩
  · exact closeFinalize_ends s _

theorem readClose_ends (s : KlStream) : s.c.Ends (s.readClose .closeCommon).state.c := by
  unfold readClose
  split_ifs
  · exact closeCancels_ends s
  · exact .rfl
  · exact closeCancels_ends { s with r := s.r.setClosed.dropHeld.retire }
  · exact closeCancels_ends { s with r := s.r.setClosed.dropHeld }

/-- `stream_close_common` does nothing after the end of the close; before, the
stream is closing, abortively if that was asked for now or earlier. -/
theorem closeCommon_ends (hi : s.c.closeInited = true)
    (hq : s.c.closeState = .closing → s.c.wqClosing = true) (abort : Bool) :
    (s.c.closeState = .closed ∧ (s.closeCommon abort).state = s) ∨ (s.c.closeState ≠ .closed ∧
        (s.c.escalate abort).beginClosing.Ends (s.closeCommon abort).state.c) := by
  unfold closeCommon
  rw [if_neg (by simp [hi])]
  split
  · next h => exact .inl ⟨h, rfl⟩
  rename_i h
  refine .inr ⟨h, ?_⟩
  split_ifs
  · exact readClose_ends { s with c := (s.c.escalate abort).beginClosing }
  · exact closeCancels_ends { s with c := (s.c.escalate abort).beginClosing }
  rename_i ho
  have hs : s.c.closeState = .closing := by
    cases hs : s.c.closeState with
    | opened => exact absurd hs ho
    | closing => rfl
    | closed => exact absurd hs h
  obtain ⟨hst, ha, hw⟩ := closeCancels_ends { s with c := s.c.escalate abort }
  refine ⟨?_, ha, hw.trans (hq hs)⟩
  rcases hst with hst | ⟨-, hst⟩
  · exact .inl (hst.trans hs)
  · exact .inr ⟨rfl, hst⟩

/-- Only `stream_close_common` begins a close, not the code after its hooks. -/
theorem afterHook_ends (s : KlStream) (f : Frame) (v : Int) :
    s.c.Ends (afterHook f v s).state.c := by
  cases hf : f.inCommon with
  | false => exact (FacetOut.afterHook s v hf).ends
  | true =>
    cases f with
    | cancelRecv => exact closeCancelSend_ends s
    | cancelSend =>
      obtain ⟨hs, ha, hw⟩ := closeFinalize_ends { s with c := s.c.leaveCancel } (.int 0)
      exact ⟨hs, ha, hw⟩
    | closeDisarm k =>
      cases k with
      | readClose => cases hf
      | closeCommon => exact closeCancels_ends { s with r := s.r.retire }
    | _ => cases hf

/-- Code outside `stream_close_common` pushes none of its frames. -/
theorem FacetOut.inCommon (ho : FacetOut F n s o) (st : List Frame) :
    (o.stack st).any Frame.inCommon = st.any Frame.inCommon := by
  cases ho with
  | done ret hw hc => rfl
  | call f hw hf hc => simp [hf.2.2]
  | @retire s' ret hw hc hn =>
    obtain h | h := closeFinalize_hook s' ret <;> simp [Out.stack_eq, h, Frame.inCommon]

theorem FacetOut.within (ho : FacetOut F n s o) : Within F s o.state := by
  cases ho with
  | done ret hw hc => exact hw
  | call f hw hf hc => exact hw
  | @retire s' ret hw hc hn =>
    have h := CloseOnly.closeFinalize (s := s') ret rfl rfl
    cases F <;> simpa [Within, h.w, h.r] using hw

variable {s' : KlStream} {f : Frame}

/-- Whatever a facet does, the configuration of the read side stays. -/
theorem Within.keepsRead (h : Within F s s') : s.r.Keeps s'.r := by
  cases F with
  | write => exact h.1 ▸ .rfl
  | read => exact h.2
  | close => exact h.2 ▸ .rfl

theorem Within.keepsWrite (h : Within F s s') : s.w.Keeps s'.w := by
  cases F with
  | write => exact h.2
  | read => exact h.1 ▸ .rfl
  | close => exact h.1 ▸ .rfl

/-- A stretch of the read or write facet. -/
theorem Base.facetOut (h : Base u tr s st) (ho : FacetOut F n s o) (cause : Cause Op Frame Int)
    (pre : KlStream) :
    Base u (tr ++ [⟨pre, cause, o⟩]) o.state (o.stack st) where
  close := by simpa using h.close.facetOut ho
  begun hb := by
    rw [ne_eq, ho.ends.opened, ho.inCommon] at hb
    exact ⟨(h.begun hb).1.append _, ho.within.keepsRead.readClosed (h.begun hb).2⟩
  read := h.read.trans ho.within.keepsRead
  write := h.write.trans ho.within.keepsWrite

theorem Base.pop (h : Base u tr s (f :: st)) (hf : f.isCancel = false) : Base u tr s st :=
  { h with
    close := h.close.pop hf
    begun := fun hb => h.begun (hb.imp_right fun hb => by simp [hb]) }

/-- The read side may have been closed on the way. -/
theorem Base.closeOnly {st₀ : List Frame} (h : Base u tr s st₀)
    (hc : CloseInv (hooks tr ++ o.hook.toList) o.state.c (o.stack st)) (ho : CloseOnly s' o)
    (hw : s'.w = s.w) (hr : s.r.Keeps s'.r) (hcl : s'.r.readClosed = true)
    (cause : Cause Op Frame Int) (pre : KlStream)
    (hb : CloseBegun (tr ++ [⟨pre, cause, o⟩])) :
    Base u (tr ++ [⟨pre, cause, o⟩]) o.state (o.stack st) where
  close := by simpa using hc
  begun _ := ⟨hb, by rw [ho.r, hcl]⟩
  read := ho.r ▸ h.read.trans hr
  write := by rw [ho.w, hw]; exact h.write

/-- A stretch that begins a close. -/
theorem Base.closeCommon (h : Base u tr s st) (abort : Bool) (op : Op)
    (hop : op = .closeBegin ∨ op = .cancel) :
    Base u (tr ++ [⟨s, .enter op, s.closeCommon abort⟩]) (s.closeCommon abort).state
      ((s.closeCommon abort).stack st) := by
  have hb : CloseBegun (tr ++ [⟨s, .enter op, s.closeCommon abort⟩]) :=
    ⟨_, List.mem_append_right _ (List.mem_singleton_self _), by rcases hop with rfl | rfl <;> simp⟩
  have hri : s.r.readInited = true := by simp [h.read.readInited, Setup.stream_eq]
  have hc := h.close.closeCommon abort
  obtain ⟨ho, hopen⟩ | ⟨-, ho⟩ := closeCommon_cases s abort
  · exact h.closeOnly hc ho rfl .rfl (h.begun (.inl (hopen h.close.inited hri))).2 _ _ hb
  generalize s.closeCommon abort = o at ho hb hc ⊢
  cases ho with
  | already hcl ho => exact h.closeOnly hc ho rfl .rfl (hcl hri) _ _ hb
  | closed _ _ ho =>
    exact h.closeOnly hc ho rfl (by constructor <;> simp) rfl _ _ hb
  | dropped _ _ _ ho =>
    exact h.closeOnly hc ho rfl (by constructor <;> simp) rfl _ _ hb
  | disarm _ _ _ hw hr =>
    exact
      { close := by simpa using hc
        begun := fun _ => ⟨hb, by simp [hr]⟩
        read := h.read.trans (by constructor <;> simp [hr])
        write := by simpa [hw] using h.write }

/-- A stretch that goes on with one. -/
theorem Base.inCommon (h : Base u tr s (f :: st)) (hf : f.inCommon = true) (v : Int) :
    Base u (tr ++ [⟨s, .resume f v, afterHook f v s⟩]) (afterHook f v s).state
      ((afterHook f v s).stack st) := by
  have hb := h.begun (.inr (by simp [hf]))
  have hb' := hb.1.append ⟨s, .resume f v, afterHook f v s⟩
  cases f with
  | cancelRecv =>
    obtain ⟨hc, heq⟩ := h.close.popCancel rfl
    exact h.closeOnly (hc.cancelSend heq) (.closeCancelSend rfl rfl) rfl .rfl hb.2 _ _ hb'
  | cancelSend =>
    obtain ⟨hc, heq⟩ := h.close.popCancel rfl
    exact h.closeOnly (hc.cancelled heq) (.closeCancelled rfl rfl) rfl .rfl hb.2 _ _ hb'
  | closeDisarm k =>
    cases k with
    | readClose => cases hf
    | closeCommon =>
      have hc := CloseInv.cancels (s := { s with r := s.r.retire }) (h.close.pop rfl)
      exact h.closeOnly hc (.closeCancels rfl rfl) rfl (by constructor <;> simp) hb.2 _ _ hb'
  | _ => cases hf

/-- Every stretch keeps the invariant. -/
theorem Base.preserves (u : Setup) (P : SConfig → SAct → Prop) : machine.Preserves P (Base u) where
  enter tr s st op h _ := by
    by_cases hop : op.facet = .close
    · cases op with
      | closeBegin => exact h.closeCommon false _ (.inl rfl)
      | cancel => exact h.closeCommon true _ (.inr rfl)
      | _ => cases hop
    · exact h.facetOut (.enter s hop) _ _
  resume tr s st f v h _ := by
    cases hf : f.inCommon with
    | true => exact h.inCommon hf v
    | false =>
      have hcancel : f.isCancel = false := by cases f <;> first | rfl | cases hf
      exact (h.pop hcancel).facetOut (.afterHook s v hf) _ _

end

theorem Base.of_reach {u : Setup} {P : SConfig → SAct → Prop} {c : SConfig}
    (hc : machine.Reach P u.stream c) : Base u c.trace c.state c.stack :=
  hc.invariant (.start u) (Base.preserves u P)

end KlStream
