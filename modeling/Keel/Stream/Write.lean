-- SUMMARY: The write side over whole runs.
import Keel.Stream.Close

/-!
# The write side

A property of the write side speaks about the write facet and about the write
hooks on the stack. `After` says that such a property holds once a stretch of code
has ended; there is one rule for each function that ends a write operation.
`WriteInv` is the property that every run keeps.
-/

open Reentrant List

namespace Frame

def isWritable : Frame → Bool
  | .flushWritable _ | .completeWritable _ => true
  | _ => false

/-- A call of the readiness writer. -/
def isWriter : Frame → Bool
  | .writeDirect _ | .flushPush => true
  | _ => false

theorem isWritable_facet (f : Frame) (h : f.isWritable = true) : f.facet = .write := by
  cases f <;> first | rfl | cases h

theorem isSubmit_facet (f : Frame) (h : f.isSubmit = true) : f.facet = .write := by
  cases f <;> first | rfl | cases h

end Frame

namespace KlStream

/-- The write hooks on the stack. -/
abbrev writeFrames (st : List Frame) : List Frame := st.filter (·.facet = .write)

theorem countP_writeFrames {p : Frame → Bool} (hp : ∀ f, p f = true → f.facet = .write)
    (st : List Frame) : (writeFrames st).countP p = st.countP p := by
  rw [writeFrames, countP_filter]
  refine countP_congr fun f _ => ?_
  rw [Bool.and_eq_true, decide_eq_true_eq]
  exact ⟨fun h => h.1, fun h => ⟨h, hp f h⟩⟩

/-- The hooks of one kind after a stretch of code. -/
theorem countP_writeFrames_stack {p : Frame → Bool} (hp : ∀ f, p f = true → f.facet = .write)
    (o : SOut) (st : List Frame) :
    (writeFrames (o.stack st)).countP p = o.hook.toList.countP p + (writeFrames st).countP p := by
  rw [countP_writeFrames hp, countP_writeFrames hp, Out.stack_eq, countP_append]

/-- `I` holds of the write side when the stretch has ended with `o`. -/
def After (I : KlStreamWrite → List Frame → Prop) (st : List Frame) (o : SOut) : Prop :=
  I o.state.w (writeFrames (o.stack st))

section

variable {I : KlStreamWrite → List Frame → Prop} {st : List Frame} {s s' : KlStream} {o : SOut}
  {f : Frame}

theorem After.call (hf : f.facet = .write) (h : I s.w (f :: writeFrames st)) :
    After I st (.call s f) := by
  simpa [After, writeFrames, hf] using h

/-- The close facet leaves the write side as it is. -/
theorem After.closeOnly (ho : CloseOnly s o) (h : I s.w (writeFrames st)) : After I st o := by
  unfold After
  rw [ho.w, writeFrames, ho.stack (F := .write) nofun]
  exact h

theorem After.onRetire {ret : Ret} (h : I s.w (writeFrames st)) : After I st (s.onRetire ret) :=
  .closeOnly (.onRetire ret rfl rfl) h

/-- The edge fires where it is due, and the rest returns. -/
theorem After.completeTail {r : Int}
    (hfire : s.writableEdge = true → I s.w.enterWritable (.completeWritable r :: writeFrames st))
    (hstay : s.writableEdge = false → I s.w (writeFrames st)) :
    After I st (s.completeTail r) := by
  unfold KlStream.completeTail
  split
  · next h => exact .call rfl (hfire h)
  · next h => exact .onRetire (hstay (by simpa using h))

theorem After.flushEdge {r : Int}
    (hfire : s.writableEdge = true → I s.w.enterWritable (.flushWritable r :: writeFrames st))
    (hstay : s.writableEdge = false → I s.w (writeFrames st)) :
    After I st (s.flushEdge r) := by
  unfold KlStream.flushEdge
  split
  · next h => exact .call rfl (hfire h)
  next h =>
  split
  · exact .onRetire (hstay (by simpa using h))
  · exact hstay (by simpa using h)

/-- The code of the other facets leaves the write side alone. -/
theorem After.other {F : Facet} {n : Bool} (ho : FacetOut F n s o) (hF : F ≠ .write)
    (h : I s.w (writeFrames st)) : After I st o := by
  have hw : o.state.w = s.w := by
    have := ho.within
    cases F with
    | write => exact absurd rfl hF
    | read => exact this.1
    | close => exact this.1
  have hst : writeFrames (o.stack st) = writeFrames st := by
    cases ho with
    | done ret _ _ => rfl
    | call f _ hf _ => simp [writeFrames, hf.1, hF]
    | @retire s' ret _ _ _ =>
      exact (CloseOnly.closeFinalize ret rfl rfl).stack (F := .write) nofun st
  unfold After
  rw [hw, hst]
  exact h

theorem After.readCloseOut {k : CloseK} (ho : ReadCloseOut s k o) (h : I s.w (writeFrames st)) :
    After I st o := by
  cases ho with
  | already _ ho => exact .closeOnly ho h
  | closed _ _ ho => exact .closeOnly ho h
  | dropped _ _ _ ho => exact .closeOnly ho h
  | disarm _ _ _ hw _ => simpa [After, writeFrames, Frame.facet, hw] using h

theorem After.enter_other {op : Op} (hop : op.facet ≠ .write) (h : I s.w (writeFrames st)) :
    After I st (enter op s) := by
  have hcommon (abort : Bool) : After I st (s.closeCommon abort) := by
    obtain ⟨ho, -⟩ | ⟨-, ho⟩ := closeCommon_cases s abort
    · exact .closeOnly ho h
    · exact .readCloseOut ho h
  by_cases hcl : op.facet = .close
  · cases op with
    | closeBegin => exact hcommon false
    | cancel => exact hcommon true
    | _ => cases hcl
  · exact .other (.enter s hcl) hop h

/-- The return of a hook of another facet. -/
theorem After.afterHook_other (v : Int) (hf : f.facet ≠ .write)
    (h : I s.w (writeFrames (f :: st))) : After I st (afterHook f v s) := by
  have h : I s.w (writeFrames st) := by simpa [writeFrames, hf] using h
  cases hc : f.inCommon with
  | false => exact .other (.afterHook s v hc) hf h
  | true =>
    cases f with
    | cancelRecv => exact .closeOnly (.closeCancelSend rfl rfl) h
    | cancelSend => exact .closeOnly (.closeCancelled rfl rfl) h
    | closeDisarm k =>
      exact .closeOnly (.readCloseRet rfl rfl) h
    | _ => cases hc

end

/-- `kl_stream_flush` after the writer: it failed, it would block or emptied the
queue, or it is called again. -/
theorem flushPushed_cases (s : KlStream) (n : Int) : (s.flushPushed n =
        { s with w := (s.w.setQueue s.w.wq.fail).setErr }.flushEdge (-1) ∧
      (n < 0 ∨ s.w.wq.buf.length < n.toNat)) ∨
    (s.flushPushed n =
        { s with w := s.w.setQueue (s.w.wq.setBuf (s.w.wq.buf.drop n.toNat))
          }.flushEdge (if s.w.wq.buf.drop n.toNat = [] then 0 else 1) ∧
      n.toNat ≤ s.w.wq.buf.length) ∨
    (s.flushPushed n =
        .call { s with w := s.w.setQueue (s.w.wq.setBuf (s.w.wq.buf.drop n.toNat)) } .flushPush ∧
      n.toNat ≤ s.w.wq.buf.length ∧ s.w.wq.buf.drop n.toNat ≠ []) := by
  unfold flushPushed
  obtain ⟨heq, hf⟩ | ⟨heq, hle⟩ | ⟨heq, hle, hne⟩ := KlDrain.pushSent_cases s.w.wq n
  · exact .inl ⟨by rw [heq]; rfl, hf⟩
  · refine .inr (.inl ⟨?_, hle⟩)
    have hr : (s.w.wq.setBuf (s.w.wq.buf.drop n.toNat)).flushResult =
        if s.w.wq.buf.drop n.toNat = [] then 0 else 1 := by
      simp only [KlDrain.flushResult, KlDrain.setBuf, length_eq_zero_iff]
    have hpos : ¬ (if s.w.wq.buf.drop n.toNat = [] then (0 : Int) else 1) < 0 := by
      split <;> omega
    rw [heq]
    simp only [hr, Int.lt_irrefl, if_false, flushTail, if_neg hpos]
  · exact .inr (.inr ⟨by rw [heq], hle, hne⟩)

/-- What `kl_stream_write` does at once: refuse, queue the whole write, or offer it
to the writer. -/
theorem write_elim {Q : SOut → Prop} {s : KlStream} {src : SrcBuf} (hi : s.w.wqInited = true)
    (hq : s.w.wq.WF) (he : s.w.wq.error = true → s.w.wqErr = true)
    (refused : ∀ status, status ≠ .accepted → status ≠ .wouldBlock → Q (.done s (.written status)))
    (empty : src.data = [] → Q (.done s (.written .accepted)))
    (blocked : s.w.wqErr = false → s.c.wqClosing = false → s.w.wq.buf ≠ [] →
      Q (.done { s with w := s.w.setBlocked true } (.written .wouldBlock)))
    (queued : ∀ data, src = .bytes data → data ≠ [] → s.w.wqErr = false → s.c.wqClosing = false →
      s.w.submitFn = true → data.length ≤ s.w.wq.bufCap - s.w.wq.buf.length →
      Q ({ s with w := (s.w.setQueue (s.w.wq.append data)).setBlocked false
          }.pumpCompletion (.write data)))
    (appended : ∀ data, src = .bytes data → s.w.wqErr = false → s.w.submitFn = false →
      data.length ≤ s.w.wq.bufCap - s.w.wq.buf.length → s.w.wq.buf ≠ [] →
      Q (.done { s with w := (s.w.setQueue (s.w.wq.append data)).setBlocked false }
        (.written .accepted)))
    (direct : ∀ data, src = .bytes data → s.w.wqErr = false → s.w.submitFn = false →
      data.length ≤ s.w.wq.bufCap - s.w.wq.buf.length → s.w.wq.buf = [] →
      Q (.call s (.writeDirect data))) :
    Q (s.write src) := by
  unfold KlStream.write
  rw [if_neg (by simp [hi])]
  split
  · exact refused _ nofun nofun
  rename_i herr
  have herr : s.w.wqErr = false := by simpa using herr
  have hderr : s.w.wq.error = false := by
    cases h : s.w.wq.error with
    | false => rfl
    | true => simp [he h] at herr
  split
  · exact refused _ nofun nofun
  rename_i hcl
  have hcl : s.c.wqClosing = false := by simpa using hcl
  split
  · exact refused _ nofun nofun
  split
  · next hl =>
    refine empty ?_
    cases src with
    | null n => rfl
    | bytes data => simpa using hl
  rename_i hl
  cases src with
  | null n => exact refused _ nofun nofun
  | bytes data =>
    have hne : data ≠ [] := by simpa using hl
    have hbuf (hlt : s.w.wq.bufCap - s.w.wq.buf.length < data.length)
        (hle : data.length ≤ s.w.wq.bufCap) : s.w.wq.buf ≠ [] := by
      intro hnil
      rw [hnil] at hlt
      simp only [length_nil] at hlt
      omega
    dsimp only
    obtain ⟨hr, -⟩ | ⟨hr, hle, hlt⟩ | ⟨hr, hle⟩ := KlDrain.reserve_bytes hq hderr hne
    · split
      · rw [show s.w.wq.reserveBuffer (.bytes data) = (s.w.wq, .tooLarge) by
          simp [KlDrain.reserveBuffer, hr]]
        exact refused .tooLarge nofun nofun
      · rw [show s.w.wq.reserveWrite (.bytes data) = .status s.w.wq .tooLarge by
          simp [KlDrain.reserveWrite, hr]]
        exact refused .tooLarge nofun nofun
    · split
      · rw [show s.w.wq.reserveBuffer (.bytes data) = (s.w.wq, .wouldBlock) by
          simp [KlDrain.reserveBuffer, hr]]
        exact blocked herr hcl (hbuf hlt hle)
      · rw [show s.w.wq.reserveWrite (.bytes data) = .status s.w.wq .wouldBlock by
          simp [KlDrain.reserveWrite, hr]]
        exact blocked herr hcl (hbuf hlt hle)
    split
    · next hsub =>
      rw [show s.w.wq.reserveBuffer (.bytes data) = (s.w.wq.append data, .accepted) by
        simp [KlDrain.reserveBuffer, hr]]
      exact queued data rfl hne herr hcl hsub hle
    rename_i hsub
    have hsub : s.w.submitFn = false := by simpa using hsub
    by_cases hnil : s.w.wq.buf = []
    · rw [show s.w.wq.reserveWrite (.bytes data) = .direct s.w.wq by
        simp [KlDrain.reserveWrite, hr, hnil]]
      exact direct data rfl herr hsub hle hnil
    · rw [show s.w.wq.reserveWrite (.bytes data) =
          .status (s.w.wq.append data) .accepted by
        simp [KlDrain.reserveWrite, hr, hnil]]
      exact appended data rfl herr hsub hle hnil

/-! ## The two ownership policies -/

section

variable {w : KlStreamWrite}

/-- A backend that copies needs the bytes no longer. -/
theorem copied_of_copying (h : w.inflightCopying = true) (len : Nat) :
    w.copied len = w.setQueue (w.wq.consume len) := by
  simp [h]

/-- One that refers to them does until the completion. -/
theorem copied_of_referencing (h : w.inflightCopying = false) (len : Nat) : w.copied len = w := by
  obtain ⟨⟩ := w
  simp_all

theorem sendRetired_of_copying (h : w.inflightCopying = true) :
    w.sendRetired = { w with sendInflight := false, inflightLen := 0 } := by
  simp [h]

theorem sendRetired_of_referencing (h : w.inflightCopying = false) : w.sendRetired =
      { w with wq := w.wq.consume w.inflightLen, sendInflight := false, inflightLen := 0 } := by
  simp [h]

end

/-! ## The invariant -/

structure WriteInv (w : KlStreamWrite) (ws : List Frame) : Prop where
  inited : w.wqInited = true
  queue : w.wq.WF
  error : w.wq.error = true → w.wqErr = true
  direct : ∀ data, .writeDirect data ∈ ws → data.length ≤ w.wq.bufCap
  depth : w.inWritable = ws.countP Frame.isWritable
  submits : ws.countP Frame.isSubmit = w.submitting.toNat
  submitting : w.submitting = true → w.sendInflight = true
  frameLen : ∀ len k, .submit len k ∈ ws → len = w.inflightLen
  inflight : w.sendInflight = true → w.submitFn = true ∧ w.wqErr = false
  len : w.sendInflight = true → w.submitting = true ∨ w.inflightCopying = false →
    w.inflightLen ≤ w.wq.buf.length
  inline : w.inlineDone = true → w.submitting = true
  writers : w.submitFn = true → ∀ f ∈ ws, f.isWriter = false

namespace WriteInv

variable {w : KlStreamWrite} {ws : List Frame} {f : Frame}

theorem start (u : Setup) : WriteInv u.stream.w [] := by
  rw [Setup.stream_eq]
  constructor <;> simp
  exact ⟨rfl, u.capacity_pos, rfl, Nat.zero_le _⟩

theorem pop (h : WriteInv w (f :: ws)) (hs : f.isSubmit = false) (hw : f.isWritable = false) :
    WriteInv w ws :=
  { h with
    direct := fun data hd => h.direct data (mem_cons_of_mem _ hd)
    depth := by simpa [hw] using h.depth
    submits := by simpa [hs] using h.submits
    frameLen := fun len k hf => h.frameLen len k (mem_cons_of_mem _ hf)
    writers := fun hsub g hg => h.writers hsub g (mem_cons_of_mem _ hg) }

/-- The writable callback is entered, and the writer is not blocked any more. -/
theorem fire (h : WriteInv w ws) (hf : f.isWritable = true) :
    WriteInv w.enterWritable (f :: ws) := by
  have hs : f.isSubmit = false := by cases f <;> first | rfl | cases hf
  have hw : f.isWriter = false := by cases f <;> first | rfl | cases hf
  exact { h with
    direct := by
      intro data hd
      rcases mem_cons.mp hd with rfl | hd
      · cases hf
      · exact h.direct data hd
    depth := by simp [countP_cons_of_pos hf, h.depth]
    submits := by simpa [hs] using h.submits
    frameLen := by
      intro len k hd
      rcases mem_cons.mp hd with rfl | hd
      · cases hf
      · exact h.frameLen len k hd
    writers := by
      intro hsub g hg
      rcases mem_cons.mp hg with rfl | hg
      · exact hw
      · exact h.writers hsub g hg }

theorem fired (h : WriteInv w (f :: ws)) (hf : f.isWritable = true) :
    WriteInv w.leaveWritable ws := by
  have hs : f.isSubmit = false := by cases f <;> first | rfl | cases hf
  exact { h with
    direct := fun data hd => h.direct data (mem_cons_of_mem _ hd)
    depth := by simp [h.depth, countP_cons_of_pos hf]
    submits := by simpa [hs] using h.submits
    frameLen := fun len k hd => h.frameLen len k (mem_cons_of_mem _ hd)
    writers := fun hsub g hg => h.writers hsub g (mem_cons_of_mem _ hg) }

section

variable (h : WriteInv w ws)
include h

variable {wq : KlDrain}

/-- Other contents in the same storage. -/
theorem setQueue (hk : w.wq.Keeps wq)
    (hfits : wq.buf.length ≤ w.wq.bufCap) (he : wq.error = true → w.wqErr = true)
    (hlen : w.sendInflight = true → w.submitting = true ∨ w.inflightCopying = false →
      w.inflightLen ≤ wq.buf.length) :
    WriteInv (w.setQueue wq) ws :=
  { h with
    queue := h.queue.keeps hk hfits
    error := he
    direct := fun data hd => hk.bufCap.symm ▸ h.direct data hd
    len := hlen }

theorem setBlocked (b : Bool) : WriteInv (w.setBlocked b) ws := { h with }

/-- Bytes that fit go to the end of the queue. -/
theorem append {data : List UInt8} (hfits : data.length ≤ w.wq.bufCap - w.wq.buf.length) :
    WriteInv ((w.setQueue (w.wq.append data)).setBlocked false) ws := by
  have hq := h.queue.fits
  refine (h.setQueue (KlDrain.Keeps.rfl.append data) ?_ ?_ ?_).setBlocked false
  · simp only [KlDrain.append_buf, length_append]
    omega
  · exact h.error
  · intro hi hc
    have := h.len hi hc
    simp only [KlDrain.append_buf, length_append]
    omega

/-- Outside of `submit_fn` no frame of it is on the stack. -/
theorem no_submit (hs : w.submitting = false) : ∀ g ∈ ws, g.isSubmit = false := by
  have := h.submits
  simp only [hs, Bool.toNat_false, countP_eq_zero] at this
  simpa using this

/-- A send is in flight, and no other was. -/
theorem post (k : SendK) (hsub : w.submitFn = true) (herr : w.wqErr = false)
    (hi : w.sendInflight = false) : WriteInv w.post (.submit w.wq.buffered k :: ws) := by
  have hs : w.submitting = false := by
    cases hs : w.submitting with
    | false => rfl
    | true => simp [h.submitting hs] at hi
  have hno := h.no_submit hs
  exact { h with
    direct := by simpa using h.direct
    depth := by simpa [Frame.isWritable] using h.depth
    submits := by simp [countP_cons, h.submits, hs, Frame.isSubmit]
    submitting := fun _ => rfl
    frameLen := by
      intro len k' hd
      rcases mem_cons.mp hd with hd | hd
      · cases hd
        rfl
      · exact absurd (hno _ hd) (by simp [Frame.isSubmit])
    inflight := fun _ => ⟨hsub, herr⟩
    len := fun _ _ => Nat.le_refl _
    inline := nofun
    writers := by
      intro _ g hg
      rcases mem_cons.mp hg with rfl | hg
      · rfl
      · exact h.writers hsub g hg }

/-- A send that is not being submitted retired, in failure or not. -/
theorem retire {wq : KlDrain} (hk : w.wq.Keeps wq)
    (hfits : wq.buf.length ≤ w.wq.bufCap) (hs : w.submitting = false)
    (err : Bool) (he : wq.error = true → err = true) :
    WriteInv { w with wq, wqErr := err, sendInflight := false, inflightLen := 0 } ws := by
  have hno := h.no_submit hs
  exact { h with
    queue := h.queue.keeps hk hfits
    error := he
    direct := fun data hd => hk.bufCap.symm ▸ h.direct data hd
    submitting := fun hs' => by simp [hs] at hs'
    frameLen := fun len k hd => absurd (hno _ hd) (by simp [Frame.isSubmit])
    inflight := nofun
    len := nofun }

/-- The queue and the error flag change together, with no send in flight. -/
theorem setQueueErr {err : Bool} (hi : w.sendInflight = false)
    (hk : w.wq.Keeps wq) (hfits : wq.buf.length ≤ w.wq.bufCap)
    (he : wq.error = true → err = true) : WriteInv { w with wq, wqErr := err } ws :=
  { h with
    queue := h.queue.keeps hk hfits
    error := he
    direct := fun data hd => hk.bufCap.symm ▸ h.direct data hd
    inflight := fun hi' => by simp [hi] at hi'
    len := fun hi' => by simp [hi] at hi' }

end

variable {k : SendK} {len : Nat}

/-- While `submit_fn` runs its send is in flight. -/
theorem of_submit (h : WriteInv w (.submit len k :: ws)) :
    w.submitting = true ∧ w.sendInflight = true ∧ w.submitFn = true ∧ w.wqErr = false := by
  have hs : w.submitting = true := by
    have := h.submits
    cases hs : w.submitting with
    | true => rfl
    | false => simp [countP_cons, Frame.isSubmit, hs] at this
  exact ⟨hs, h.submitting hs, h.inflight (h.submitting hs)⟩

/-- `submit_fn` returned, and a completion it reported inline was taken note of. -/
theorem submitReturned (h : WriteInv w (.submit len k :: ws)) :
    WriteInv w.submitReturned.clearInline ws := by
  have hs := h.of_submit.1
  have hcount : ws.countP Frame.isSubmit = 0 := by
    have := h.submits
    simpa [countP_cons, Frame.isSubmit, hs] using this
  exact { h with
    direct := fun data hd => h.direct data (mem_cons_of_mem _ hd)
    depth := by simpa [Frame.isWritable] using h.depth
    submits := by simpa using hcount
    submitting := fun h => absurd h Bool.false_ne_true
    frameLen := fun len k hf => h.frameLen len k (mem_cons_of_mem _ hf)
    len := fun hi _ => h.len hi (.inl hs)
    inline := fun h => absurd h Bool.false_ne_true
    writers := fun hsub g hg => h.writers hsub g (mem_cons_of_mem _ hg) }

section

variable (h : WriteInv w ws) (hs : w.submitting = false)
include h hs

theorem copied (len : Nat) : WriteInv (w.copied len) ws := by
  cases hc : w.inflightCopying with
  | false => rwa [copied_of_referencing hc]
  | true =>
    have hfits := h.queue.fits
    rw [copied_of_copying hc]
    refine h.setQueue (.consume w.wq len) ?_ ?_ (by simp [hs, hc])
    · simp only [KlDrain.consume_buf, length_drop]
      omega
    · simpa using h.error

/-- The completion takes its bytes off the queue. -/
theorem sendRetired : WriteInv w.sendRetired ws := by
  have hfits := h.queue.fits
  cases hc : w.inflightCopying with
  | true =>
    rw [sendRetired_of_copying hc]
    exact h.retire .rfl hfits hs w.wqErr h.error
  | false =>
    rw [sendRetired_of_referencing hc]
    refine h.retire (.consume w.wq w.inflightLen) ?_ hs w.wqErr ?_
    · simp only [KlDrain.consume_buf, length_drop]
      omega
    · simpa using h.error

/-- A failed send leaves the error behind. -/
theorem sendFailed : WriteInv w.sendFailed ws := h.retire .rfl h.queue.fits hs true fun _ => rfl

end

variable {s : KlStream} {st : List Frame}

theorem pumpRet {r : Int} (h : WriteInv s.w (writeFrames st)) :
    After WriteInv st (s.pumpRet r k) := by
  cases k with
  | write data =>
    simp only [KlStream.pumpRet]
    split
    · exact h
    · exact h
  | complete => exact .completeTail (fun _ => h.fire rfl) (fun _ => h)

/-- The pump submits what is queued when nothing is in flight. -/
theorem pumpCompletion (h : WriteInv s.w (writeFrames st))
    (hsub : s.w.submitFn = true) : After WriteInv st (s.pumpCompletion k) := by
  unfold KlStream.pumpCompletion
  split
  · exact h.pumpRet
  next herr =>
  split
  · exact h.pumpRet
  split
  · exact h.pumpRet
  next hi =>
  split
  · exact h.pumpRet
  · exact .call rfl (h.post k hsub (by simpa using herr) (by simpa using hi))

/-- The return of `submit_fn`, inline completion or not. -/
theorem submitted (h : WriteInv s.w (.submit len k :: writeFrames st))
    (r : Int) : After WriteInv st (s.submitted len r k) := by
  obtain ⟨-, -, hsub, -⟩ := h.of_submit
  have hcopied := h.submitReturned.copied rfl len
  unfold KlStream.submitted
  split_ifs
  · exact pumpRet (h.submitReturned.sendFailed rfl)
  · next hd =>
    have hd : s.w.inlineDone = false := by simpa using hd
    refine pumpRet ?_
    have heq : s.w.submitReturned.clearInline = s.w.submitReturned := by simp [hd]
    rwa [heq] at hcopied
  · exact pumpRet (hcopied.sendFailed rfl)
  · exact pumpCompletion (hcopied.sendRetired rfl) hsub

section

variable (h : WriteInv s.w (writeFrames st))
include h

/-- A completion, and the pump behind it. -/
theorem onWriteComplete (ok : Bool) : After WriteInv st (s.onWriteComplete ok) := by
  unfold KlStream.onWriteComplete
  split
  · exact h
  split
  · exact h
  next hi =>
  have hi : s.w.sendInflight = true := by simpa using hi
  split
  · next hs => exact { h with inline := fun _ => hs }
  next hs =>
  have hs : s.w.submitting = false := by simpa using hs
  split
  · exact .completeTail (fun _ => (h.sendFailed hs).fire rfl) (fun _ => h.sendFailed hs)
  · exact pumpCompletion (h.sendRetired hs) (h.inflight hi).1

/-- `kl_stream_write`, up to its first hook. -/
theorem write (src : SrcBuf) : After WriteInv st (s.write src) := by
  refine write_elim h.inited h.queue h.error ?_ ?_ ?_ ?_ ?_ ?_
  · exact fun _ _ _ => h
  · exact fun _ => h
  · exact fun _ _ _ => h.setBlocked true
  · intro data _ _ _ _ hsub hfits
    exact pumpCompletion (h.append hfits) hsub
  · exact fun data _ _ _ hfits _ => h.append hfits
  intro data _ _ hsub hfits _
  refine .call rfl
    { h with
      direct := ?_
      depth := by simpa [Frame.isWritable] using h.depth
      submits := by simpa [Frame.isSubmit] using h.submits
      frameLen := by simpa using h.frameLen
      writers := fun hsub' => by simp [hsub] at hsub' }
  intro data' hd
  rcases mem_cons.mp hd with hd | hd
  · cases hd
    omega
  · exact h.direct data' hd

theorem flushEdge {r : Int} : After WriteInv st (s.flushEdge r) :=
  .flushEdge (fun _ => h.fire rfl) (fun _ => h)

/-- `kl_stream_flush`, up to its first hook. -/
theorem flush : After WriteInv st s.flush := by
  unfold KlStream.flush
  split
  · exact h
  split
  · exact h
  rename_i hsub
  have hsub : s.w.submitFn = false := by
    simp only [Bool.or_eq_true, not_or] at hsub
    simpa using hsub.1
  have hi : s.w.sendInflight = false := by
    cases hi : s.w.sendInflight with
    | false => rfl
    | true => simp [(h.inflight hi).1] at hsub
  split
  · exact flushEdge (s := { s with w := s.w.setErr })
      (h.setQueueErr hi .rfl h.queue.fits fun _ => rfl)
  split
  · exact h.flushEdge
  exact .call rfl
    { h with
      direct := by simpa using h.direct
      depth := by simpa [Frame.isWritable] using h.depth
      submits := by simpa [Frame.isSubmit] using h.submits
      frameLen := by simpa using h.frameLen
      writers := fun hsub' => by simp [hsub] at hsub' }

end

/-- A writer on the stack: this is a readiness stream. -/
theorem readiness (h : WriteInv w (f :: ws)) (hf : f.isWriter = true) :
    w.submitFn = false ∧ w.sendInflight = false := by
  have hsub : w.submitFn = false := by
    cases hsub : w.submitFn with
    | false => rfl
    | true => simp [h.writers hsub f (mem_cons_self ..)] at hf
  refine ⟨hsub, ?_⟩
  cases hi : w.sendInflight with
  | false => rfl
  | true => simp [(h.inflight hi).1] at hsub

/-- The return of `push_fn` inside a flush. -/
theorem flushPushed (h : WriteInv s.w (.flushPush :: writeFrames st)) (n : Int) :
    After WriteInv st (s.flushPushed n) := by
  obtain ⟨hsub, hi⟩ := h.readiness rfl
  have hp := h.pop rfl rfl
  have hfits : (s.w.wq.buf.drop n.toNat).length ≤ s.w.wq.bufCap := by
    have := h.queue.fits
    simp only [length_drop]
    omega
  obtain ⟨heq, -⟩ | ⟨heq, -⟩ | ⟨heq, -⟩ := flushPushed_cases s n
  · rw [heq]
    exact flushEdge (s := { s with w := (s.w.setQueue s.w.wq.fail).setErr })
      (hp.setQueueErr hi ⟨rfl, rfl, rfl, rfl⟩ h.queue.fits fun _ => rfl)
  · rw [heq]
    exact flushEdge
      (s := { s with w := s.w.setQueue (s.w.wq.setBuf (s.w.wq.buf.drop n.toNat)) })
      (hp.setQueueErr hi ⟨rfl, rfl, rfl, rfl⟩ hfits h.error)
  · rw [heq]
    exact .call rfl (h.setQueueErr hi ⟨rfl, rfl, rfl, rfl⟩ hfits h.error)

/-- The return of the direct send. -/
theorem writeSent {data : List UInt8} (h : WriteInv s.w (.writeDirect data :: writeFrames st))
    (n : Int) : After WriteInv st (s.writeSent data n) := by
  obtain ⟨hsub, hi⟩ := h.readiness rfl
  have hp := h.pop rfl rfl
  unfold KlStream.writeSent
  obtain ⟨heq, -⟩ | ⟨heq, -⟩ | ⟨heq, -⟩ := KlDrain.reserveWriteSent_cases s.w.wq data n
  · rw [heq]
    exact hp.setQueueErr hi ⟨rfl, rfl, rfl, rfl⟩ h.queue.fits fun _ => rfl
  · rw [heq]
    exact hp.setBlocked false
  · rw [heq]
    have hfits : (data.drop n.toNat).length ≤ s.w.wq.bufCap := by
      have := h.direct data (mem_cons_self ..)
      simp only [length_drop]
      omega
    have hq : WriteInv (s.w.setQueue (s.w.wq.setBuf (data.drop n.toNat))) (writeFrames st) :=
      hp.setQueueErr hi ⟨rfl, rfl, rfl, rfl⟩ hfits h.error
    exact hq.setBlocked false

end WriteInv

/-- Every stretch keeps the invariant of the write side. -/
theorem WriteInv.preserves (P : SConfig → SAct → Prop) :
    machine.Preserves P (fun _ s st => WriteInv s.w (writeFrames st)) where
  enter tr s st op h _ := by
    show After WriteInv st (enter op s)
    by_cases hop : op.facet = .write
    · cases op with
      | write src => exact h.write src
      | flush => exact h.flush
      | onWriteComplete ok => exact h.onWriteComplete ok
      | _ => cases hop
    · exact .enter_other hop h
  resume tr s st f v h _ := by
    show After WriteInv st (afterHook f v s)
    by_cases hf : f.facet = .write
    · have h : WriteInv s.w (f :: writeFrames st) := by simpa [writeFrames, hf] using h
      cases f with
      | writeDirect data => exact h.writeSent v
      | flushPush => exact h.flushPushed v
      | submit len k => exact h.submitted v
      | flushWritable r => exact .onRetire (h.fired rfl)
      | completeWritable r =>
        exact .onRetire (h.fired rfl)
      | _ => cases hf
    · exact .afterHook_other v hf h

theorem Base.preservesWrite (u : Setup) (P : SConfig → SAct → Prop) :
    machine.Preserves P (fun tr s st => Base u tr s st ∧ WriteInv s.w (writeFrames st)) :=
  (Base.preserves u P).and (WriteInv.preserves P)

theorem WriteInv.of_reach {u : Setup} {P : SConfig → SAct → Prop} {c : SConfig}
    (hc : machine.Reach P u.stream c) : WriteInv c.state.w (writeFrames c.stack) :=
  hc.invariant (WriteInv.start u) (WriteInv.preserves P)

end KlStream
