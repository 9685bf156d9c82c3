-- SUMMARY: The read side over whole runs.
import Keel.Stream.Close

/-!
# The read side

The counterpart of the write side: `AfterRead` says that a property of the read facet
and of the read hooks on the stack holds once a stretch of code has ended, and
`ReadInv` is the property that every run keeps.
-/

open Reentrant

namespace KlStream

/-- The read hooks on the stack. -/
abbrev readFrames (st : List Frame) : List Frame := st.filter (·.facet = .read)

/-- `I` holds of the read side when the stretch has ended with `o`. -/
def AfterRead (I : KlStreamRead → List Frame → Prop) (st : List Frame) (o : SOut) : Prop :=
  I o.state.r (readFrames (o.stack st))

section

variable {I : KlStreamRead → List Frame → Prop} {st : List Frame} {s : KlStream} {o : SOut}

theorem AfterRead.call {f : Frame} (hf : f.facet = .read) (h : I s.r (f :: readFrames st)) :
    AfterRead I st (.call s f) := by
  simpa [AfterRead, readFrames, hf] using h

/-- The close facet leaves the read side as it is. -/
theorem AfterRead.closeOnly (ho : CloseOnly s o) (h : I s.r (readFrames st)) :
    AfterRead I st o := by
  unfold AfterRead
  rw [ho.r, readFrames, ho.stack (F := .read) nofun]
  exact h

theorem AfterRead.onRetire {ret : Ret} (h : I s.r (readFrames st)) :
    AfterRead I st (s.onRetire ret) :=
  .closeOnly (.onRetire ret rfl rfl) h

theorem AfterRead.armRet {r : Int} {k : ArmK} (h : I s.r (readFrames st)) :
    AfterRead I st (s.armRet r k) := by
  cases k with
  | plain => exact h
  | onRecv =>
    simp only [KlStream.armRet]
    split
    · exact .onRetire h
    · exact h

/-- The code of the write facet leaves the read side alone. -/
theorem AfterRead.write {n : Bool} (ho : FacetOut .write n s o) (h : I s.r (readFrames st)) :
    AfterRead I st o := by
  have hst : readFrames (o.stack st) = readFrames st := by
    cases ho with
    | done ret _ _ => rfl
    | call f _ hf _ => simp [readFrames, hf.1]
    | @retire s' ret _ _ _ =>
      exact (CloseOnly.closeFinalize ret rfl rfl).stack (F := .read) nofun st
  unfold AfterRead
  rw [ho.within.1, hst]
  exact h

/-- The code after a hook of another facet. -/
theorem AfterRead.afterHook_other {f : Frame} {v : Int} (hf : f.facet ≠ .read)
    (h : I s.r (readFrames st)) : AfterRead I st (afterHook f v s) := by
  cases f with
  | cancelRecv => exact .closeOnly (.closeCancelSend rfl rfl) h
  | cancelSend => exact .closeOnly (.closeCancelled rfl rfl) h
  | onClose r => exact h
  | writeDirect data => exact .write (.afterHook s (f := .writeDirect data) v rfl) h
  | flushPush => exact .write (.afterHook s (f := .flushPush) v rfl) h
  | submit len k => exact .write (.afterHook s (f := .submit len k) v rfl) h
  | flushWritable r => exact .write (.afterHook s (f := .flushWritable r) v rfl) h
  | completeWritable r => exact .write (.afterHook s (f := .completeWritable r) v rfl) h
  | arm _ | deliver _ _ _ | pauseDisarm | closeDisarm _ => exact absurd rfl hf

/-- `kl_stream_read_close`, called on its own or by a close. -/
theorem AfterRead.readCloseOut {k : CloseK} (ho : ReadCloseOut s k o) (h : I s.r (readFrames st))
    (closed : s.r.readClosed = false → I s.r.setClosed.dropHeld (readFrames st))
    (dropped : s.r.readClosed = false → (s.r.recvInflight && s.r.readDisarm) = false →
      I s.r.setClosed.dropHeld.retire (readFrames st))
    (disarm : s.r.readClosed = false → s.r.recvInflight = true →
      I s.r.setClosed.dropHeld (.closeDisarm k :: readFrames st)) :
    AfterRead I st o := by
  cases ho with
  | already _ ho => exact .closeOnly ho h
  | closed hcl _ ho => exact .closeOnly ho (closed hcl)
  | dropped hcl _ hd ho => exact .closeOnly ho (dropped hcl hd)
  | @disarm s' hcl _ hi _ hr =>
    refine .call rfl ?_
    rw [hr]
    exact disarm hcl hi

/-- A call of another facet; one that closes the stream closes the read side too. -/
theorem AfterRead.enter_other {op : Op} (hop : op.facet ≠ .read) (h : I s.r (readFrames st))
    (hclose : ∀ {o : SOut}, ReadCloseOut s .closeCommon o → AfterRead I st o) :
    AfterRead I st (enter op s) := by
  have hcommon (abort : Bool) : AfterRead I st (s.closeCommon abort) := by
    obtain ⟨ho, -⟩ | ⟨-, ho⟩ := closeCommon_cases s abort
    · exact .closeOnly ho h
    · exact hclose ho
  cases op with
  | write src => exact .write (.write s src) h
  | flush => exact .write (.flush s) h
  | onWriteComplete ok => exact .write (.onWriteComplete s ok) h
  | closeBegin => exact hcommon false
  | cancel => exact hcommon true
  | _ => exact absurd rfl hop

end

/-! ## The invariant -/

structure ReadInv (r : KlStreamRead) (fs : List Frame) : Prop where
  inited : r.readInited = true
  arms : fs.countP Frame.isArm = r.arming.toNat
  held : r.recvHeld = true → r.readPaused = true ∧ r.readClosed = false ∧ r.recvInflight = false
  heldLen : r.recvHeld = true → r.heldLen ≤ r.readCap ∧ (r.heldOk = false → r.heldLen = 0)
  inline : r.arming = true → r.completedInline = false → r.recvHeld = false

namespace ReadInv

variable {r : KlStreamRead} {fs : List Frame} {f : Frame}

theorem start (u : Setup) : ReadInv u.stream.r [] := by
  rw [Setup.stream_eq]
  constructor <;> simp

theorem push (h : ReadInv r fs) (hf : f.isArm = false) : ReadInv r (f :: fs) :=
  { h with arms := by simpa [hf] using h.arms }

theorem pop (h : ReadInv r (f :: fs)) (hf : f.isArm = false) : ReadInv r fs :=
  { h with arms := by simpa [hf] using h.arms }

theorem of_free {r' : KlStreamRead} (h : ReadInv r fs) (hi : r'.readInited = r.readInited)
    (ha : r'.arming = r.arming) (hh : r'.recvHeld = false) : ReadInv r' fs where
  inited := hi.trans h.inited
  arms := by rw [ha]; exact h.arms
  held hh' := by simp [hh] at hh'
  heldLen hh' := by simp [hh] at hh'
  inline _ _ := hh

theorem dropHeld (h : ReadInv r fs) : ReadInv r.setClosed.dropHeld fs := h.of_free rfl rfl rfl

/-- A receive in flight leaves no room for a held completion. -/
theorem free_of_inflight (h : ReadInv r fs) (hi : r.recvInflight = true) : r.recvHeld = false := by
  refine Bool.eq_false_iff.mpr fun hh => ?_
  rw [(h.held hh).2.2] at hi
  cases hi

/-- A closed read side holds no completion. -/
theorem free_of_closed (h : ReadInv r fs) (hcl : r.readClosed = true) : r.recvHeld = false := by
  refine Bool.eq_false_iff.mpr fun hh => ?_
  rw [(h.held hh).2.1] at hcl
  cases hcl

variable {s : KlStream} {st : List Frame}

/-- The loop arms one receive at a time. -/
theorem armLoop (h : ReadInv s.r (readFrames st)) (ha : s.r.arming = false) (k : ArmK) :
    AfterRead ReadInv st (s.armLoop k) := by
  unfold KlStream.armLoop
  split
  · exact .armRet h
  next hbusy =>
  simp only [Bool.or_eq_true, not_or, Bool.not_eq_true] at hbusy
  refine .call rfl ?_
  exact
    { inited := h.inited
      arms := by simp [List.countP_cons_of_pos (p := Frame.isArm) (a := .arm k) rfl, h.arms, ha]
      held := fun hh => by simp [hbusy.2] at hh
      heldLen := fun hh => by simp [hbusy.2] at hh
      inline := fun _ _ => hbusy.2 }

theorem streamArm (h : ReadInv s.r (readFrames st)) (k : ArmK) :
    AfterRead ReadInv st (s.streamArm k) := by
  unfold KlStream.streamArm
  split
  · exact .armRet { h with }
  · next ha => exact h.armLoop (by simpa using ha) k

/-- `read_arm` returned. -/
theorem armReturned {k : ArmK} (h : ReadInv r (.arm k :: fs)) :
    r.arming = true ∧ ReadInv r.armReturned fs := by
  have hcount := h.arms
  rw [List.countP_cons_of_pos rfl] at hcount
  cases ha : r.arming with
  | false => simp [ha] at hcount
  | true =>
    refine ⟨rfl, { h with arms := ?_, inline := nofun }⟩
    simpa [ha] using hcount

/-- The return of `read_arm`, inline completion or not. -/
theorem armed {k : ArmK} (h : ReadInv s.r (.arm k :: readFrames st)) (rc : Int) :
    AfterRead ReadInv st (s.armed rc k) := by
  obtain ⟨ha, hret⟩ := h.armReturned
  unfold KlStream.armed
  split
  · split
    · exact armLoop hret rfl k
    · exact .armRet hret
  · next hin =>
    split
    · -- a failed arm has held nothing, so closing the read side discards nothing
      exact .armRet (hret.of_free rfl rfl (h.inline ha (by simpa using hin)))
    · exact .armRet hret

section

variable (h : ReadInv s.r (readFrames st))
include h

/-- A delivery goes out with nothing held. -/
theorem deliverAndContinue (hh : s.r.recvHeld = false) (len : Nat)
    (ok : Bool) (k : ArmK) : AfterRead ReadInv st (s.deliverAndContinue len ok k) := by
  unfold KlStream.deliverAndContinue
  split
  · refine .call rfl (push ?_ rfl)
    exact h.of_free rfl rfl hh
  · exact .call rfl (h.push rfl)

theorem delivered (ok : Bool) (k : ArmK) : AfterRead ReadInv st (s.delivered ok k) := by
  unfold KlStream.delivered
  split_ifs
  · exact .armRet h
  · exact .armRet h
  · exact .armRet h
  · exact h.streamArm k

theorem readStart : AfterRead ReadInv st s.readStart := by
  unfold KlStream.readStart
  split_ifs
  · exact h
  · exact h
  · exact h.streamArm .plain

/-- A completion is delivered, held or dropped. -/
theorem onRecv (len : Nat) (ok : Bool) : AfterRead ReadInv st (s.onRecv len ok) := by
  unfold KlStream.onRecv
  split
  · exact h
  split
  · exact h
  rename_i hi
  have hfree := h.free_of_inflight (by simpa using hi)
  have hdone : ReadInv s.r.complete (readFrames st) := h.of_free rfl rfl hfree
  split
  · exact .onRetire hdone
  rename_i hcl
  split
  · exact .onRetire (h.of_free rfl rfl hfree)
  rename_i hlen
  split
  · next hp =>
    refine .onRetire ?_
    exact
      { inited := h.inited
        arms := h.arms
        held := fun _ => ⟨hp, by simpa using hcl, rfl⟩
        heldLen := fun _ => by
          cases ok with
          | false => simp
          | true =>
            refine ⟨?_, nofun⟩
            simpa using hlen
        inline := fun ha hin => by simp_all }
  · exact deliverAndContinue (s := { s with r := s.r.complete }) hdone hfree _ _ _

theorem pause : AfterRead ReadInv st s.pause := by
  have hp : ReadInv (s.r.setPaused true) (readFrames st) :=
    { h with held := fun hh => ⟨rfl, (h.held hh).2⟩ }
  unfold KlStream.pause
  split_ifs
  · exact h
  · exact .call rfl (hp.push rfl)
  · exact hp

/-- A resume hands out what is held. -/
theorem resume : AfterRead ReadInv st s.resume := by
  unfold KlStream.resume
  split
  · exact h
  split
  · next hcl => exact h.of_free rfl rfl (h.free_of_closed hcl)
  split
  · exact deliverAndContinue (s := { s with r := (s.r.setPaused false).dropHeld })
      (h.of_free rfl rfl rfl) rfl _ _ _
  next hh =>
  have hh : s.r.recvHeld = false := by simpa using hh
  split
  · exact h.of_free rfl rfl hh
  · exact streamArm (s := { s with r := s.r.setPaused false }) (h.of_free rfl rfl hh) .plain

theorem readClose {k : CloseK} {o : SOut} (ho : ReadCloseOut s k o) : AfterRead ReadInv st o :=
  .readCloseOut ho h (fun _ => h.dropHeld) (fun _ _ => h.of_free rfl rfl rfl)
    (fun _ _ => h.dropHeld.push rfl)

end

theorem retire (h : ReadInv r fs) : ReadInv r.retire fs :=
  { h with held := fun hh => ⟨(h.held hh).1, (h.held hh).2.1, rfl⟩ }

end ReadInv

/-- Every stretch keeps the invariant of the read side. -/
theorem ReadInv.preserves (P : SConfig → SAct → Prop) :
    machine.Preserves P (fun _ s st => ReadInv s.r (readFrames st)) where
  enter tr s st op h _ := by
    show AfterRead ReadInv st (enter op s)
    cases op with
    | readStart => exact h.readStart
    | onRecv len ok => exact h.onRecv len ok
    | pause => exact h.pause
    | resume => exact h.resume
    | readClose => exact h.readClose (.readClose .readClose rfl rfl)
    | _ => exact .enter_other (by rintro ⟨⟩) h h.readClose
  resume tr s st f v h _ := by
    show AfterRead ReadInv st (afterHook f v s)
    cases f with
    | arm k => exact ReadInv.armed (by simpa [readFrames, Frame.facet] using h) v
    | deliver len ok k =>
      have h : ReadInv s.r (.deliver len ok k :: readFrames st) := by
        simpa [readFrames, Frame.facet] using h
      exact (h.pop rfl).delivered ok k
    | pauseDisarm =>
      have h : ReadInv s.r (.pauseDisarm :: readFrames st) := by
        simpa [readFrames, Frame.facet] using h
      exact (h.pop rfl).retire
    | closeDisarm k =>
      have h : ReadInv s.r (.closeDisarm k :: readFrames st) := by
        simpa [readFrames, Frame.facet] using h
      exact .closeOnly (.readCloseRet rfl rfl) (h.pop rfl).retire
    | _ => exact .afterHook_other (by rintro ⟨⟩) h

end KlStream
