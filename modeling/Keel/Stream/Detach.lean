-- SUMMARY: When detachment never comes in the middle of a hook.
import Keel.Stream.Bytes

/-!
# Detachment

The results about `on_close` that an owner relies on, over whole runs with
arbitrary re-entrancy: it is confirmed (nothing is outstanding and nothing was
lost), it comes when no stream function is suspended, and it does come.
-/

open Reentrant

namespace Frame

/-- The hooks inside which finalization does not wait. -/
def undeferred : Frame → Bool
  | .deliver _ _ _ | .arm _ | .writeDirect _ | .flushPush | .pauseDisarm | .closeDisarm _ => true
  | _ => false

def isRead : Frame → Bool
  | .deliver _ _ _ | .arm _ => true
  | _ => false

end Frame

namespace KlStream

variable {u : Setup} {P : SConfig → SAct → Prop} {c : SConfig}

/-- What `stream_fully_retired` means. -/
theorem fullyRetired_iff {s : KlStream} :
    s.fullyRetired = true ↔ s.r.recvInflight = false ∧ s.w.sendInflight = false ∧
      (s.c.closeAbort = true ∨ s.w.wqErr = true ∨ s.w.pending = 0) := by
  unfold fullyRetired
  cases s.r.recvInflight <;> cases s.w.sendInflight <;> cases s.c.closeAbort <;>
    cases s.w.wqErr <;> simp

/-! ## Confirmed -/

/-- After a graceful close nothing is left in the queue. -/
theorem admitted_eq_handed (hc : machine.Reach WriterQuiet u.stream c)
    (hret : c.state.fullyRetired = true) (hab : c.state.c.closeAbort = false)
    (herr : c.state.w.wqErr = false) :
    admitted c.trace = handed c.trace ++ c.stack.flatMap Frame.offered := by
  obtain ⟨hw, hb⟩ := WriteBytes.of_reach hc
  obtain ⟨-, hi, hpend⟩ := fullyRetired_iff.mp hret
  have hnil : c.state.w.wq.buf = [] := by
    refine KlStreamWrite.buf_of_pending hw.inited ?_
    simpa [hab, herr] using hpend
  have := hb.bytes herr
  rwa [KlStreamWrite.unsent_of_idle hi, hnil, List.append_nil, flatMap_offered_writeFrames] at this

/-- `on_close` is confirmed detachment, in every run: at most once, after a close,
with no operation outstanding, and, if the close was graceful and the write side
has not failed, with every byte taken by the transport except those of a write that
is still inside the readiness writer. -/
theorem onClose_confirmed (u : Setup) (c : SConfig)
    (hc : machine.Reach Machine.Any u.stream c) :
    (hooks c.trace).countP Frame.isOnClose ≤ 1 ∧
    (∀ ret, c.calling = some (.onClose ret) →
      CloseBegun c.trace ∧ c.state.r.recvInflight = false ∧ c.state.w.sendInflight = false ∧
      (machine.Reach WriterQuiet u.stream c → c.state.c.closeAbort = false →
        c.state.w.wqErr = true ∨
          admitted c.trace = handed c.trace ++ c.stack.flatMap Frame.offered)) ∧
    recvCancels (hooks c.trace) ≤ 1 ∧ sendCancels (hooks c.trace) ≤ 1 ∧
    (c.calling = some .cancelRecv → c.state.r.recvInflight = true) ∧
    (c.calling = some .cancelSend → c.state.w.sendInflight = true) := by
  have hbase := Base.of_reach hc
  have hhook (f : Frame) (hf : c.calling = some f) : HookOk c.state f := by
    obtain ⟨c₀, -, hcalled⟩ := hc.called hf
    exact hookOk_of_called hcalled
  refine ⟨?_, fun ret hret => ?_, ?_, ?_, fun h => (hhook _ h).recv rfl,
    fun h => (hhook _ h).send rfl⟩
  · rw [hbase.close.fired]
    exact Bool.toNat_le _
  · obtain ⟨-, -, hretired⟩ := (hhook _ hret).detached ret rfl
    obtain ⟨hr, hs, -⟩ := fullyRetired_iff.mp hretired
    have hclosed : c.state.c.closeNotified = true := by
      obtain ⟨rest, hst⟩ := hc.stack_of_calling hret
      have := hbase.close.onStack
      rw [hst, List.countP_cons_of_pos rfl] at this
      cases hn : c.state.c.closeNotified with
      | true => rfl
      | false => simp [hn] at this
    have hopen : c.state.c.closeState ≠ .opened := by
      rw [hbase.close.notified.mpr hclosed]
      nofun
    refine ⟨(hbase.begun (.inl hopen)).1, hr, hs, fun hq hab => ?_⟩
    cases herr : c.state.w.wqErr with
    | true => exact .inl rfl
    | false => exact .inr (admitted_eq_handed hq hretired hab herr)
  · rw [hbase.close.recv]
    exact Bool.toNat_le _
  · rw [hbase.close.send]
    exact Bool.toNat_le _

/-- A stream with a readiness writer and a completion reader. -/
def mixedSetup : Setup where
  readCap := 8
  readCap_pos := by decide
  capacity := 16
  capacity_pos := by decide
  transport := .writer
  onWritable := true
  completionMode := true
  disarm := false
  disarm_of_readiness := nofun
  cancelRecv := true
  cancelSend := true

/-- A write of two bytes of which the writer takes one, a close, and the flush that
drains the queue and detaches. -/
theorem onClose_confirmed_drained : ∃ c, machine.run Machine.Any (Machine.start mixedSetup.stream)
        [.call (.write (.bytes [1, 2])), .ret 1, .call .closeBegin, .call .flush, .ret 1] = some c ∧
      c.calling = some (.onClose (.int 0)) ∧
      CloseBegun c.trace ∧ c.state.r.recvInflight = false ∧ c.state.w.sendInflight = false ∧
      (c.state.w.wqErr = true ∨
        admitted c.trace = handed c.trace ++ c.stack.flatMap Frame.offered) := by
  have hquiet : machine.run WriterQuiet (Machine.start mixedSetup.stream)
      [.call (.write (.bytes [1, 2])), .ret 1, .call .closeBegin, .call .flush, .ret 1] =
        some _ := rfl
  refine Machine.exists_run ⟨_, rfl, fun hc => ?_⟩
  obtain ⟨-, h, -⟩ := onClose_confirmed mixedSetup _ hc
  obtain ⟨hb, hr, hs, hbytes⟩ := h (.int 0) (by decide)
  exact ⟨by decide, hb, hr, hs, hbytes (Machine.Reach.run .start hquiet) (by decide)⟩

/-- A writer that starts another write: both writes are accepted, the second one's
byte is overwritten in the queue, and the graceful close does not wait for it. -/
theorem accepted_byte_lost : ∃ c, machine.run Machine.Any (Machine.start mixedSetup.stream)
        [.call (.write (.bytes [1, 2])), .call (.write (.bytes [3])), .ret 0, .ret 0,
          .call .flush, .ret 2, .call .closeBegin] = some c ∧
      c.calling = some (.onClose (.int 0)) ∧ c.stack = [.onClose (.int 0)] ∧
      c.state.c.closeAbort = false ∧ c.state.w.wqErr = false ∧
      accepted c.trace = [3, 1, 2] ∧ handed c.trace = [1, 2] :=
  ⟨_, rfl, by decide, by decide, by decide, by decide, by decide, by decide⟩

/-! ## Outermost

A close that is begun while a stream function is suspended inside `read_deliver`,
`read_arm`, the readiness writer or `read_disarm` may detach at once: finalization
looks for cancel and writable frames only. -/

/-- Nobody begins a close, or after one was begun notifies a retirement, from
inside a hook that finalization does not wait for. -/
def CloseOutside (c : SConfig) : SAct → Prop
  | .call op => op.notifies = true → op.facet = .close ∨ c.state.c.closeState ≠ .opened →
      ∀ f ∈ c.stack, f.undeferred = false
  | .ret _ => True

instance (c : SConfig) : ∀ a, Decidable (CloseOutside c a)
  | .call op => inferInstanceAs (Decidable (op.notifies = true →
      op.facet = .close ∨ c.state.c.closeState ≠ .opened → ∀ f ∈ c.stack, f.undeferred = false))
  | .ret _ => inferInstanceAs (Decidable True)

def Clean (st : List Frame) : Prop := ∀ f ∈ st, f.undeferred = false

/-- The stack of a closing stream: below a frame that will finalize there is no
undeferred hook. -/
def Settled : List Frame → Prop
  | [] => True
  | f :: st => f.isRead = false ∧ (f.notifies = true → Clean st) ∧ Settled st

theorem Clean.settled {st : List Frame} (h : Clean st) : Settled st := by
  induction st with
  | nil => trivial
  | cons f st ih =>
    have hst : Clean st := fun g hg => h g (List.mem_cons_of_mem _ hg)
    refine ⟨?_, fun _ => hst, ih hst⟩
    have := h f (List.mem_cons_self ..)
    cases f <;> first | rfl | cases this

theorem Clean.push {st : List Frame} {o : SOut} (h : Clean st)
    (ho : ∀ f, o.hook = some f → f.isRead = false) : Settled (o.stack st) := by
  cases o with
  | done s ret => exact h.settled
  | call s f => exact ⟨ho f rfl, fun _ => h, h.settled⟩

section

variable {s : KlStream} {F : Facet} {n : Bool} {o : SOut}

theorem CloseOnly.notRead (h : CloseOnly s o) : ∀ f, o.hook = some f → f.isRead = false := by
  intro f hf
  have := h.facet f hf
  cases f <;> first | rfl | cases this

theorem FacetOut.write_notRead (h : FacetOut .write n s o) :
    ∀ f, o.hook = some f → f.isRead = false := by
  cases h with
  | done ret hw hc => nofun
  | call g hw hg hc =>
    intro f hf
    cases hf
    have := hg.1
    cases g <;> first | rfl | cases this
  | @retire s' ret hw hc hn => exact (CloseOnly.closeFinalize ret rfl rfl).notRead

theorem armRet_notRead (s : KlStream) (r : Int) (k : ArmK) :
    ∀ f, (s.armRet r k).hook = some f → f.isRead = false := by
  cases k with
  | plain => exact Out.no_hook
  | onRecv =>
    simp only [armRet]
    split
    · exact (CloseOnly.onRetire _ rfl rfl).notRead
    · exact Out.no_hook

theorem ReadCloseOut.notRead {k : CloseK} (h : ReadCloseOut s k o) :
    ∀ f, o.hook = some f → f.isRead = false := by
  cases h with
  | already _ ho => exact ho.notRead
  | closed _ _ ho => exact ho.notRead
  | dropped _ _ _ ho => exact ho.notRead
  | disarm _ _ _ _ _ =>
    intro f hf
    cases hf
    rfl

theorem closeCommon_notRead (s : KlStream) (abort : Bool) :
    ∀ f, (s.closeCommon abort).hook = some f → f.isRead = false := by
  obtain ⟨ho, -⟩ | ⟨-, ho⟩ := closeCommon_cases s abort
  · exact ho.notRead
  · exact ho.notRead

/-- A closed read side neither arms nor delivers. -/
theorem enter_notRead (hcl : s.r.readClosed = true) (op : Op) :
    ∀ f, (enter op s).hook = some f → f.isRead = false := by
  cases op with
  | write src => exact (FacetOut.write s src).write_notRead
  | flush => exact (FacetOut.flush s).write_notRead
  | onWriteComplete ok => exact (FacetOut.onWriteComplete s ok).write_notRead
  | readStart =>
    simp only [enter, readStart, hcl, Bool.or_true, Bool.true_or, if_true]
    split <;> nofun
  | onRecv len ok =>
    simp only [enter, onRecv, hcl, if_true]
    split_ifs
    · nofun
    · nofun
    · exact (CloseOnly.onRetire _ rfl rfl).notRead
  | pause =>
    simp only [enter, pause]
    split_ifs
    · nofun
    · intro f hf
      cases hf
      rfl
    · nofun
  | resume =>
    simp only [enter, resume, hcl, if_true]
    split <;> nofun
  | readClose => exact (ReadCloseOut.readClose .readClose rfl rfl).notRead
  | closeBegin => exact closeCommon_notRead s false
  | cancel => exact closeCommon_notRead s true

theorem afterHook_notRead (hcl : s.r.readClosed = true) (g : Frame) (v : Int) :
    ∀ f, (afterHook g v s).hook = some f → f.isRead = false := by
  cases g with
  | arm k =>
    simp only [afterHook, armed, armLoop, hcl, KlStreamRead.armReturned, Bool.true_or, if_true]
    split_ifs
    · exact armRet_notRead _ _ _
    · exact armRet_notRead _ _ _
    · exact armRet_notRead _ _ _
    · exact armRet_notRead _ _ _
  | deliver len ok k =>
    simp only [afterHook, delivered, hcl, Bool.true_or, if_true]
    split
    · exact armRet_notRead _ _ _
    · exact armRet_notRead _ _ _
  | pauseDisarm => nofun
  | closeDisarm k =>
    exact (CloseOnly.readCloseRet rfl rfl).notRead
  | cancelRecv => exact (CloseOnly.closeCancelSend rfl rfl).notRead
  | cancelSend => exact (CloseOnly.closeCancelled rfl rfl).notRead
  | onClose r => nofun
  | writeDirect data => exact (FacetOut.afterHook s (f := .writeDirect data) v rfl).write_notRead
  | flushPush => exact (FacetOut.afterHook s (f := .flushPush) v rfl).write_notRead
  | submit len k => exact (FacetOut.afterHook s (f := .submit len k) v rfl).write_notRead
  | flushWritable r => exact (FacetOut.afterHook s (f := .flushWritable r) v rfl).write_notRead
  | completeWritable r =>
    exact (FacetOut.afterHook s (f := .completeWritable r) v rfl).write_notRead

/-- While closing, the operations that do not notify call no hook whose return
will. -/
theorem enter_quiet {op : Op} (hcl : s.r.readClosed = true) (hwq : s.c.wqClosing = true)
    (hop : op.notifies = false) : ∀ f, (enter op s).hook = some f → f.notifies = false := by
  cases op with
  | write src =>
    simp only [enter, write, hwq, if_true]
    split
    · nofun
    · split <;> nofun
  | readStart =>
    simp only [enter, readStart, hcl, Bool.or_true, Bool.true_or, if_true]
    split <;> nofun
  | pause =>
    simp only [enter, pause]
    split_ifs
    · nofun
    · intro f hf
      cases hf
      rfl
    · nofun
  | resume =>
    simp only [enter, resume, hcl, if_true]
    split <;> nofun
  | readClose =>
    simp only [enter, readClose, hcl, Bool.or_true, if_true, readCloseRet]
    nofun
  | _ => cases hop

theorem pumpRet_write_hook (s : KlStream) (r : Int) (data : List UInt8) :
    (s.pumpRet r (.write data)).hook = none := by
  simp only [pumpRet]
  split <;> rfl

theorem pumpCompletion_write_hook (s : KlStream) (data : List UInt8) :
    ∀ f, (s.pumpCompletion (.write data)).hook = some f → f.notifies = false := by
  unfold pumpCompletion
  split_ifs
  · nofun
  · nofun
  · nofun
  · nofun
  · intro f hf
    cases hf
    rfl

/-- So does the code after a hook that does not notify. -/
theorem afterHook_quiet {g : Frame} (v : Int) (hg : g.notifies = false) (hr : g.isRead = false) :
    ∀ f, (afterHook g v s).hook = some f → f.notifies = false := by
  cases g with
  | writeDirect data =>
    simp only [afterHook, writeSent, writeReserved]
    split <;> exact Out.no_hook
  | submit len k =>
    cases k with
    | write data =>
      simp only [afterHook, submitted, apply_ite Out.hook, pumpRet_write_hook]
      split
      · exact Out.no_hook
      split
      · exact Out.no_hook
      · split
        · exact Out.no_hook
        · exact pumpCompletion_write_hook _ data
    | complete => cases hg
  | closeDisarm k =>
    cases k with
    | readClose => exact Out.no_hook
    | closeCommon => cases hg
  | pauseDisarm => exact Out.no_hook
  | onClose r => exact Out.no_hook
  | deliver len ok k => cases hr
  | arm k => cases hr
  | _ => cases hg

end

/-- A close that was begun found a clean stack and has kept it settled. -/
def Outer (u : Setup) (tr : List SStep) (s : KlStream) (st : List Frame) : Prop :=
  Base u tr s st ∧ (s.c.closeState ≠ .opened → Settled st)

theorem Outer.preserves (u : Setup) {P : SConfig → SAct → Prop}
    (hP : ∀ c a, P c a → CloseOutside c a) : machine.Preserves P (Outer u) := by
  refine (Base.preserves u P).strengthen ?_ ?_
  · intro tr s st op hb h hp hopen
    by_cases hbegun : op.facet = .close ∨ s.c.closeState ≠ .opened
    · by_cases hn : op.notifies = true
      · have hclean : Clean st := hP _ _ hp hn hbegun
        refine hclean.push ?_
        rcases hbegun with hop | hs
        · cases op with
          | closeBegin => exact closeCommon_notRead s false
          | cancel => exact closeCommon_notRead s true
          | _ => cases hop
        · exact enter_notRead (hb.begun (.inl hs)).2 op
      have hn : op.notifies = false := by simpa using hn
      have hs : s.c.closeState ≠ .opened := by
        refine hbegun.resolve_left fun hop => ?_
        cases op <;> simp [Op.facet, Op.notifies] at hop hn
      have hwq := hb.refusing hs
      have hcl := (hb.begun (.inl hs)).2
      have hread := enter_notRead hcl op
      have hquiet := enter_quiet hcl hwq hn
      show Settled ((enter op s).stack st)
      cases ho : enter op s with
      | done s' ret => exact h hs
      | call s' f =>
        rw [ho] at hread hquiet
        refine ⟨hread f rfl, fun hf => ?_, h hs⟩
        rw [hquiet f rfl] at hf
        cases hf
    · -- the stream is open and stays open
      obtain ⟨hop, hs⟩ := not_or.mp hbegun
      exact absurd ((FacetOut.enter s hop).ends.opened.mpr (not_not.mp hs)) hopen
  · intro tr s st f v hb h _ hopen
    have hs : s.c.closeState ≠ .opened := fun hs => hopen ((afterHook_ends s f v).opened.mpr hs)
    obtain ⟨hfr, hclean, hst⟩ := h hs
    have hread := afterHook_notRead (hb.begun (.inl hs)).2 f v
    by_cases hf : f.notifies = true
    · exact (hclean hf).push hread
    have hquiet := afterHook_quiet (s := s) v (by simpa using hf) hfr
    show Settled ((afterHook f v s).stack st)
    cases ho : afterHook f v s with
    | done s' ret => exact hst
    | call s' g =>
      rw [ho] at hread hquiet
      refine ⟨hread g rfl, fun hg => ?_, hst⟩
      rw [hquiet g rfl] at hg
      cases hg

/-- Who calls `on_close` finalizes, in a closing stream. -/
theorem onClose_caller {c₀ : SConfig} {ret : Ret} (hout : Outer u c₀.trace c₀.state c₀.stack)
    (h : Machine.Called machine CloseOutside c₀ c (.onClose ret)) :
    ∃ rest, c.stack = .onClose ret :: rest ∧ Clean rest := by
  have hopen {F : Facet} {n : Bool} (ho : FacetOut F n c₀.state (.call c.state (.onClose ret))) :
      n = true ∧ c₀.state.c.closeState ≠ .opened := by
    generalize hg : (Out.call c.state (.onClose ret) : SOut) = o at ho
    cases ho with
    | done ret' hw hc => cases hg
    | call f hw hf hc =>
      cases hg
      exact absurd rfl hf.2.1
    | @retire s' ret' hw hc hn =>
      refine ⟨hn, ?_⟩
      obtain ⟨heq, -⟩ | ⟨-, hs, -⟩ := closeFinalize_cases s' ret'
      · rw [heq] at hg
        cases hg
      · rw [← hc, hs]
        nofun
  cases h with
  | enter op hp ho hst =>
    refine ⟨_, hst, ?_⟩
    by_cases hop : op.facet = .close
    · refine hp ?_ (.inl hop)
      cases op <;> first | rfl | cases hop
    have hf := FacetOut.enter c₀.state hop
    rw [show KlStream.enter op c₀.state = _ from ho] at hf
    obtain ⟨hn, hs⟩ := hopen hf
    exact hp hn (.inr hs)
  | resume g v rest hstack _ ho hst =>
    refine ⟨rest, hst, ?_⟩
    obtain ⟨hb, hset⟩ := hout
    rw [hstack] at hset
    cases hg : g.inCommon with
    | false =>
      have hf := FacetOut.afterHook c₀.state v hg
      rw [show afterHook g v c₀.state = _ from ho] at hf
      obtain ⟨hn, hs⟩ := hopen hf
      exact (hset hs).2.1 hn
    | true =>
      have hn : g.notifies = true := by
        cases g with
        | closeDisarm k => cases k <;> first | rfl | cases hg
        | _ => first | rfl | cases hg
      have hs : c₀.state.c.closeState ≠ .opened := by
        intro hs
        have hop := (afterHook_ends c₀.state g v).opened.mpr hs
        rw [show afterHook g v c₀.state = _ from ho] at hop
        have hok := (hookOk_afterHook (show afterHook g v c₀.state = _ from ho)).closed ret rfl
        rw [Out.state_call, hok] at hop
        cases hop
      exact (hset hs).2.1 hn

/-- In every run in which no close is begun, and no retirement notified after one
was, from inside `read_deliver`, `read_arm`, the readiness writer or `read_disarm`:
when `on_close` is called, no stream function is suspended inside a hook. -/
theorem onClose_outermost (u : Setup) (c : SConfig) (ret : Ret)
    (hc : machine.Reach CloseOutside u.stream c) (hcall : c.calling = some (.onClose ret)) :
    c.stack = [.onClose ret] := by
  obtain ⟨c₀, hc₀, hcalled⟩ := hc.called hcall
  have hout : Outer u c₀.trace c₀.state c₀.stack :=
    hc₀.invariant ⟨.start u, by simp [Setup.stream_eq]⟩ (Outer.preserves u fun _ _ h => h)
  obtain ⟨rest, hst, hclean⟩ := onClose_caller hout hcalled
  obtain ⟨hcc, hiw, hret⟩ := (hookOk_of_called hcalled).detached ret rfl
  obtain ⟨-, hsend, -⟩ := fullyRetired_iff.mp hret
  have hb := Base.of_reach hc
  have hw := WriteInv.of_reach hc
  -- none of the other hooks is on the stack either
  have hcancel : rest.countP Frame.isCancel = 0 := by
    have := hb.close.depth
    rwa [hcc, hst, List.countP_cons_of_neg (by simp [Frame.isCancel]), eq_comm] at this
  have honce : rest.countP Frame.isOnClose = 0 := by
    have := Nat.le_trans hb.close.onStack (Bool.toNat_le _)
    rw [hst, List.countP_cons_of_pos rfl] at this
    omega
  have hwst : writeFrames c.stack = writeFrames rest := by simp [hst, writeFrames, Frame.facet]
  have hwritable : (writeFrames rest).countP Frame.isWritable = 0 := by
    rw [← hwst, ← hw.depth, hiw]
  have hsubmit : (writeFrames rest).countP Frame.isSubmit = 0 := by
    rw [← hwst, hw.submits]
    cases hs : c.state.w.submitting with
    | false => rfl
    | true => simp [hw.submitting hs] at hsend
  rw [hst]
  congr 1
  rw [List.eq_nil_iff_forall_not_mem]
  intro f hf
  have hund := hclean f hf
  rw [List.countP_eq_zero] at hcancel honce hwritable hsubmit
  have hmem (hfac : f.facet = .write) : f ∈ writeFrames rest := by simp [writeFrames, hf, hfac]
  cases f with
  | submit len k => exact hsubmit _ (hmem rfl) rfl
  | flushWritable r => exact hwritable _ (hmem rfl) rfl
  | completeWritable r => exact hwritable _ (hmem rfl) rfl
  | cancelRecv => exact hcancel _ hf rfl
  | cancelSend => exact hcancel _ hf rfl
  | onClose r => exact honce _ hf rfl
  | _ => cases hund

/-- A close with a posted receive, which its terminal completion lets detach. -/
theorem onClose_outermost_completion :
    ∃ c, machine.run CloseOutside (Machine.start mixedSetup.stream)
        [.call .readStart, .ret 0, .call .closeBegin, .call (.onRecv 0 false)] = some c ∧
      c.calling = some (.onClose (.int 0)) ∧ c.stack = [.onClose (.int 0)] := by
  refine Machine.exists_run ⟨_, rfl, fun hc => ⟨by decide, ?_⟩⟩
  exact onClose_outermost mixedSetup _ _ hc (by decide)

/-- A close begun by the deliver callback: `on_close` is called while
`kl_stream_on_recv` is suspended in `read_deliver`, and that frame goes on reading
the stream after `on_close` returned. -/
theorem onClose_inside_deliver : ∃ c, machine.run Machine.Any (Machine.start mixedSetup.stream)
        [.call .readStart, .ret 0, .call (.onRecv 3 true), .call .closeBegin] = some c ∧
      c.calling = some (.onClose (.int 0)) ∧
      c.stack = [.onClose (.int 0), .deliver 3 true .onRecv] :=
  ⟨_, rfl, by decide, by decide⟩

end KlStream
