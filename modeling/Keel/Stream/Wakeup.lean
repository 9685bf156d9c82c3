-- SUMMARY: A blocked producer has a send in flight that will wake it.
import Keel.Stream.Fidelity

/-!
# The writable edge

A producer that was told WOULD_BLOCK waits for `on_writable`, which only
`kl_stream_on_write_complete` calls. `Wake` says that as long as it waits a send is in
flight, and what a call of `on_writable` costs: one WOULD_BLOCK each.
-/

open Reentrant

namespace KlStream

/-- The hook `f`, by returning `v`, lets `kl_stream_write` return with no send in
flight. -/
def endsWrite (s : KlStream) (f : Frame) (v : Int) : Bool :=
  match f with
  | .submit len (.write _) => s.endsSend len v
  | _ => false

/-- No write is told WOULD_BLOCK while another is inside a `submit_fn` that ends the
send: that other write returns without evaluating the writable edge. -/
def NoBlockedEnd (c : SConfig) : SAct → Prop
  | .call _ => True
  | .ret v =>
    match c.stack with
    | [] => True
    | f :: _ => c.state.w.wrBlocked = true → c.state.w.onWritable = true →
        c.state.c.wqClosing = false → c.state.endsWrite f v = false

instance (c : SConfig) : ∀ a, Decidable (NoBlockedEnd c a)
  | .call _ => inferInstanceAs (Decidable True)
  | .ret v =>
    match h : c.stack with
    | [] => .isTrue (by simp [NoBlockedEnd, h])
    | f :: _ => decidable_of_iff (c.state.w.wrBlocked = true → c.state.w.onWritable = true →
        c.state.c.wqClosing = false → c.state.endsWrite f v = false) (by simp [NoBlockedEnd, h])

/-- What holds after a stretch of code that started with `cl` for `wq_closing`, `n` edges
to spend and `k` calls of `on_writable` on the stack. -/
structure Wake (cl : Bool) (n k : Nat) (w : KlStreamWrite) (ws : List Frame) : Prop where
  queued : w.wq.buf ≠ [] → w.sendInflight = true ∨ w.wqErr = true ∨ cl = true
  blocked : w.wrBlocked = true → w.onWritable = true → cl = false → w.sendInflight = true
  budget : ws.countP Frame.isWritable + w.wrBlocked.toNat ≤ n + k
  outside : ws.countP Frame.isWritable ≤ k ∨ w.submitting = false
  opened : ws.countP Frame.isWritable ≤ k ∨ cl = false

/-- What the pump and the end of a completion may assume. -/
structure Ready (n : Nat) (w : KlStreamWrite) : Prop where
  room : 0 < w.wq.maxSize
  edge : w.wrBlocked.toNat ≤ n

namespace Wake

variable {s : KlStream} {st : List Frame} {cl : Bool} {n k : Nat} {ws : List Frame} {j : SendK}

/-- Nothing was fired. -/
theorem mk_quiet {w : KlStreamWrite}
    (queued : w.wq.buf ≠ [] → w.sendInflight = true ∨ w.wqErr = true ∨ cl = true)
    (blocked : w.wrBlocked = true → w.onWritable = true → cl = false → w.sendInflight = true)
    (hn : w.wrBlocked.toNat ≤ n) (hk : ws.countP Frame.isWritable ≤ k) : Wake cl n k w ws where
  queued := queued
  blocked := blocked
  budget := by omega
  outside := .inl hk
  opened := .inl hk

/-- The producer is woken, or a send is in flight that will wake it. -/
theorem completeTail (hr : Ready n s.w) (hs : s.w.submitting = false) (r : Int)
    (queued : s.w.wq.buf ≠ [] → s.w.sendInflight = true ∨ s.w.wqErr = true ∨ s.c.wqClosing = true) :
    After (Wake s.c.wqClosing n ((writeFrames st).countP Frame.isWritable)) st
    (s.completeTail r) := by
  refine .completeTail (fun hedge => ?_) (fun hedge => ?_)
  · have hbl : s.w.wrBlocked = true ∧ s.c.wqClosing = false := by
      unfold writableEdge at hedge
      split at hedge
      · cases hedge
      next h =>
      simp only [Bool.or_eq_true, not_or, Bool.not_eq_true', Bool.not_eq_false,
        Bool.not_eq_true] at h
      exact ⟨h.1.1, h.2⟩
    have hn := hr.edge
    rw [hbl.1, Bool.toNat_true] at hn
    exact
      { queued := queued
        blocked := nofun
        budget := by
          rw [List.countP_cons_of_pos rfl]
          simp only [KlStreamWrite.enterWritable, Bool.toNat_false]
          omega
        outside := .inr hs
        opened := .inr hbl.2 }
  refine mk_quiet queued (fun hbl hon hcl => ?_) hr.edge (Nat.le_refl _)
  -- the edge is held back by a full queue only, and a full queue is being sent
  have hfull : s.w.wqErr = false ∧ s.w.wq.maxSize ≤ s.w.pending := by
    simp only [writableEdge, hbl, hon, hcl, Bool.not_true, Bool.or_self, Bool.false_eq_true,
      if_false] at hedge
    split at hedge
    · next h => simpa using h
    · cases hedge
  by_contra hi
  have hi : s.w.sendInflight = false := by simpa using hi
  have hle : s.w.pending ≤ s.w.wq.buf.length := by
    unfold KlStreamWrite.pending KlDrain.buffered
    rw [hi, Bool.and_false]
    split
    · exact Nat.zero_le _
    · exact Nat.le_refl _
  have hne : s.w.wq.buf ≠ [] := by
    intro hnil
    have := hr.room
    rw [hnil, List.length_nil] at hle
    omega
  rcases queued hne with h | h | h
  · simp [hi] at h
  · simp [hfull.1] at h
  · simp [hcl] at h

theorem pumpRet (hr : Ready n s.w) (r : Int) (hs : j = .complete → s.w.submitting = false)
    (queued : s.w.wq.buf ≠ [] → s.w.sendInflight = true ∨ s.w.wqErr = true ∨ s.c.wqClosing = true)
    (blocked : j ≠ .complete → s.w.wrBlocked = true → s.w.onWritable = true →
      s.c.wqClosing = false → s.w.sendInflight = true) :
    After (Wake s.c.wqClosing n ((writeFrames st).countP Frame.isWritable)) st (s.pumpRet r j) := by
  cases j with
  | complete => exact completeTail hr (hs rfl) r queued
  | write data =>
    have : Wake s.c.wqClosing n ((writeFrames st).countP Frame.isWritable) s.w (writeFrames st) :=
      mk_quiet queued (blocked nofun) hr.edge (Nat.le_refl _)
    simp only [KlStream.pumpRet]
    split
    · exact this
    · exact this

/-- The pump: a `kl_stream_write` that returns from it must not leave a producer
blocked behind. -/
theorem pumpCompletion (hr : Ready n s.w) (hs : j = .complete → s.w.submitting = false)
    (hab : s.c.closeAbort = true → s.c.wqClosing = true)
    (hwrite : j ≠ .complete → s.w.wrBlocked = true → s.w.onWritable = true →
      s.c.wqClosing = false → s.w.wqErr = false ∧ s.w.wq.buf ≠ []) :
    After (Wake s.c.wqClosing n ((writeFrames st).countP Frame.isWritable)) st
      (s.pumpCompletion j) := by
  unfold KlStream.pumpCompletion
  split
  · next herr =>
    refine pumpRet hr _ hs (fun _ => .inr (.inl herr)) fun hj hbl hon hcl => ?_
    simp [(hwrite hj hbl hon hcl).1] at herr
  split
  · next h =>
    refine pumpRet hr _ hs (fun _ => .inr (.inr (hab h))) fun hj hbl hon hcl => ?_
    simp [hab h] at hcl
  split
  · next h => exact pumpRet hr _ hs (fun _ => .inl h) fun _ _ _ _ => h
  next hi =>
  split
  · next hz =>
    have hnil : s.w.wq.buf = [] := by simpa [KlDrain.buffered] using hz
    refine pumpRet hr _ hs (fun hne => absurd hnil hne) fun hj hbl hon hcl => ?_
    exact absurd hnil (hwrite hj hbl hon hcl).2
  · refine .call rfl (mk_quiet (fun _ => .inl rfl) (fun _ _ _ => rfl) hr.edge ?_)
    exact Nat.le_of_eq (List.countP_cons_of_neg (by simp [Frame.isWritable]))

theorem submitted {len : Nat} (hw : WriteInv s.w (.submit len j :: writeFrames st))
    (hn : s.w.wrBlocked.toNat ≤ n) (hab : s.c.closeAbort = true → s.c.wqClosing = true) (r : Int)
    (hend : s.w.wrBlocked = true → s.w.onWritable = true → s.c.wqClosing = false →
      s.endsWrite (.submit len j) r = false) :
    After (Wake s.c.wqClosing n ((writeFrames st).countP Frame.isWritable)) st
      (s.submitted len r j) := by
  obtain ⟨-, hi, -, herr⟩ := hw.of_submit
  have hlen : len = s.w.inflightLen := hw.frameLen len j (List.mem_cons_self ..)
  have hroom : 0 < s.w.wq.maxSize := by
    rw [hw.queue.maxSize]
    exact hw.queue.bufCap_pos
  have hcopied : 0 < (s.w.submitReturned.copied len).wq.maxSize := by
    rw [(copied_keeps s.w len).queue.maxSize]
    exact hroom
  -- a write that returns with a producer blocked still has a send in flight
  have hend (hj : j ≠ .complete) (hbl : s.w.wrBlocked = true) (hon : s.w.onWritable = true)
      (hcl : s.c.wqClosing = false) : s.endsSend len r = false := by
    have := hend hbl hon hcl
    cases j with
    | write data => exact this
    | complete => exact absurd rfl hj
  unfold KlStream.submitted
  split
  · next hr =>
    refine pumpRet (s := { s with w := s.w.submitReturned.sendFailed.clearInline })
      ⟨hroom, hn⟩ _ (fun _ => rfl) (fun _ => .inr (.inl rfl)) fun hj hbl hon hcl => ?_
    have := hend hj hbl hon hcl
    simp [endsSend, hr] at this
  split
  · exact pumpRet (s := { s with w := s.w.submitReturned.copied len }) ⟨hcopied, hn⟩ _
      (fun _ => rfl) (fun _ => .inl hi) fun _ _ _ _ => hi
  rename_i hd
  have hd : s.w.inlineDone = true := by simpa using hd
  split
  · next hok =>
    refine pumpRet
      (s := { s with w := (s.w.submitReturned.copied len).clearInline.sendFailed })
      ⟨hcopied, hn⟩ _ (fun _ => rfl) (fun _ => .inr (.inl rfl)) fun hj hbl hon hcl => ?_
    have := hend hj hbl hon hcl
    simp [endsSend, hd, hok] at this
  refine pumpCompletion
    (s := { s with w := (s.w.submitReturned.copied len).clearInline.sendRetired })
    ⟨?_, hn⟩ (fun _ => rfl) hab fun hj hbl hon hcl => ⟨herr, fun hnil => ?_⟩
  · rw [(sendRetired_keeps _).queue.maxSize]
    exact hcopied
  · have hmore : len < s.w.wq.buf.length := by
      have := hend hj hbl hon hcl
      simp only [endsSend, hd, KlDrain.buffered, Bool.true_and, Bool.or_eq_false_iff] at this
      exact Nat.lt_of_not_le (of_decide_eq_false this.2.2)
    have hdrop : s.w.wq.buf.drop len = [] := by
      cases hc : s.w.inflightCopying <;> simpa [hc, ← hlen] using hnil
    rw [List.drop_eq_nil_iff] at hdrop
    omega

theorem onWriteComplete (hw : WriteInv s.w ws)
    (h : Wake s.c.wqClosing n ((writeFrames st).countP Frame.isWritable) s.w (writeFrames st))
    (hn : s.w.wrBlocked.toNat ≤ n) (hab : s.c.closeAbort = true → s.c.wqClosing = true)
    (ok : Bool) : After (Wake s.c.wqClosing n ((writeFrames st).countP Frame.isWritable)) st
      (s.onWriteComplete ok) := by
  have hroom : 0 < s.w.wq.maxSize := by
    rw [hw.queue.maxSize]
    exact hw.queue.bufCap_pos
  unfold KlStream.onWriteComplete
  split
  · exact h
  split
  · exact h
  split
  · exact { h with outside := .inl (Nat.le_refl _) }
  next hs =>
  have hs : s.w.submitting = false := by simpa using hs
  split
  · exact completeTail (s := { s with w := s.w.sendFailed }) ⟨hroom, hn⟩ hs _
      fun _ => .inr (.inl rfl)
  · refine pumpCompletion (s := { s with w := s.w.sendRetired }) ⟨?_, hn⟩ (fun _ => hs) hab nofun
    rw [(sendRetired_keeps _).queue.maxSize]
    exact hroom

end Wake

/-! ## Runs -/

def blockedBy (x : SStep) : Nat :=
  match x.cause, x.out with
  | .enter (.write _), .done _ (.written .wouldBlock) => 1
  | _, _ => 0

/-- How often a producer was told WOULD_BLOCK. -/
def wouldBlocks (tr : List SStep) : Nat := (tr.map blockedBy).sum

theorem wouldBlocks_append (tr : List SStep) (x : SStep) :
    wouldBlocks (tr ++ [x]) = wouldBlocks tr + blockedBy x := by
  simp [wouldBlocks]

/-- A completion stream that is not closing sends what it has, and a blocked producer
can rely on that. -/
structure Awake (s : KlStream) : Prop where
  mode : s.w.submitFn = true
  queued : s.w.wq.buf ≠ [] → s.w.sendInflight = true ∨ s.w.wqErr = true ∨ s.c.wqClosing = true
  blocked : s.w.wrBlocked = true → s.w.onWritable = true → s.c.wqClosing = false →
    s.w.sendInflight = true

namespace Awake

variable {s : KlStream} {st : List Frame}

theorem wake (h : Awake s) {n : Nat} (hn : s.w.wrBlocked.toNat ≤ n) :
    Wake s.c.wqClosing n ((writeFrames st).countP Frame.isWritable) s.w (writeFrames st) :=
  .mk_quiet h.queued h.blocked hn (Nat.le_refl _)

section

variable (h : Awake s) (hw : WriteInv s.w (writeFrames st))
  (hab : s.c.closeAbort = true → s.c.wqClosing = true)
include h hw hab

theorem write (src : SrcBuf) : After (Wake s.c.wqClosing
      (s.w.wrBlocked.toNat + blockedBy ⟨s, .enter (.write src), s.write src⟩)
      ((writeFrames st).countP Frame.isWritable)) st (s.write src) := by
  have hroom : 0 < s.w.wq.maxSize := by
    rw [hw.queue.maxSize]
    exact hw.queue.bufCap_pos
  have hsubmitting (hmode : s.w.submitFn = false) : False := by simp [h.mode] at hmode
  refine write_elim
    (Q := fun o => After (Wake s.c.wqClosing
      (s.w.wrBlocked.toNat + blockedBy ⟨s, .enter (.write src), o⟩)
      ((writeFrames st).countP Frame.isWritable)) st o)
    hw.inited hw.queue hw.error ?_ ?_ ?_ ?_ ?_ ?_
  · exact fun _ _ _ => h.wake (Nat.le_add_right _ _)
  · exact fun _ => h.wake (Nat.le_add_right _ _)
  · -- a full queue that has not failed is being sent
    intro herr hcl hne
    have hi : s.w.sendInflight = true := by
      rcases h.queued hne with hi | he | hc
      · exact hi
      · simp [herr] at he
      · simp [hcl] at hc
    exact .mk_quiet (fun _ => .inl hi) (fun _ _ _ => hi)
      (Nat.le_trans (Bool.toNat_le _) (Nat.le_add_left 1 _)) (Nat.le_refl _)
  · intro data _ _ _ _ _ _
    exact .pumpCompletion
      (s := { s with w := (s.w.setQueue (s.w.wq.append data)).setBlocked false })
      ⟨hroom, Nat.zero_le _⟩ nofun hab nofun
  · exact fun _ _ _ hmode _ _ => (hsubmitting hmode).elim
  · exact fun _ _ _ hmode _ _ => (hsubmitting hmode).elim

theorem enter (op : Op) :
    After (Wake s.c.wqClosing (s.w.wrBlocked.toNat + blockedBy ⟨s, .enter op, enter op s⟩)
      ((writeFrames st).countP Frame.isWritable)) st (enter op s) := by
  have hn := Nat.le_refl s.w.wrBlocked.toNat
  cases op with
  | write src => exact h.write hw hab src
  | flush =>
    simp only [KlStream.enter, KlStream.flush, h.mode, Bool.true_or, if_true]
    split
    · exact h.wake hn
    · exact h.wake hn
  | onWriteComplete ok => exact .onWriteComplete hw (h.wake hn) hn hab ok
  | _ => exact .enter_other (by rintro ⟨⟩) (h.wake hn)

end

theorem afterHook {f : Frame} (h : Awake s) (hw : WriteInv s.w (writeFrames (f :: st)))
    (hab : s.c.closeAbort = true → s.c.wqClosing = true) (v : Int)
    (hend : s.w.wrBlocked = true → s.w.onWritable = true → s.c.wqClosing = false →
      s.endsWrite f v = false) :
    After (Wake s.c.wqClosing s.w.wrBlocked.toNat ((writeFrames st).countP Frame.isWritable)) st
      (afterHook f v s) := by
  have hn := Nat.le_refl s.w.wrBlocked.toNat
  by_cases hf : f.facet = .write
  · have hw : WriteInv s.w (f :: writeFrames st) := by simpa [writeFrames, hf] using hw
    have hwriter (hwr : f.isWriter = true) : False := by
      have := (hw.readiness hwr).1
      simp [h.mode] at this
    cases f with
    | submit len j => exact .submitted hw hn hab v hend
    | writeDirect data => exact (hwriter rfl).elim
    | flushPush => exact (hwriter rfl).elim
    | flushWritable r =>
      exact .onRetire (.mk_quiet h.queued h.blocked hn (Nat.le_refl _))
    | completeWritable r =>
      exact .onRetire (.mk_quiet h.queued h.blocked hn (Nat.le_refl _))
    | _ => cases hf
  · refine .afterHook_other v hf ?_
    have : writeFrames (f :: st) = writeFrames st := by simp [writeFrames, hf]
    rw [this]
    exact h.wake hn

/-- Closing only makes it easier. -/
theorem of_wake {s' : KlStream} {ws : List Frame} {n k : Nat} (h : Awake s)
    (hk : s.w.Keeps s'.w) (hc : s.c.wqClosing = true → s'.c.wqClosing = true)
    (hwake : Wake s.c.wqClosing n k s'.w ws) : Awake s' where
  mode := hk.submitFn.trans h.mode
  queued hne := (hwake.queued hne).imp_right (.imp_right hc)
  blocked hbl hon hcl := hwake.blocked hbl hon (by
    cases hs : s.c.wqClosing with
    | false => rfl
    | true => simp [hc hs] at hcl)

end Awake

variable {s : KlStream} {st : List Frame} {tr : List SStep} {u : Setup} {f : Frame}

theorem enter_wqClosing (hb : Base u tr s st) (op : Op) (h : s.c.wqClosing = true) :
    (enter op s).state.c.wqClosing = true := by
  have hcommon (abort : Bool) : (s.closeCommon abort).state.c.wqClosing = true := by
    obtain ⟨-, heq⟩ | ⟨-, he⟩ := closeCommon_ends hb.close.inited (fun _ => h) abort
    · rw [heq, h]
    · exact he.wqClosing
  by_cases hop : op.facet = .close
  · cases op with
    | closeBegin => exact hcommon false
    | cancel => exact hcommon true
    | _ => cases hop
  · exact (FacetOut.enter s hop).ends.wqClosing.trans h

/-- What a run of a completion stream keeps. -/
structure WakeRun (tr : List SStep) (s : KlStream) : Prop where
  awake : Awake s
  fired : (hooks tr).countP Frame.isWritable + s.w.wrBlocked.toNat ≤ wouldBlocks tr

theorem WakeRun.step {tr : List SStep} {x : SStep} (h : WakeRun tr s) (hk : s.w.Keeps x.out.state.w)
    (hc : s.c.wqClosing = true → x.out.state.c.wqClosing = true)
    (hwake : After (Wake s.c.wqClosing (s.w.wrBlocked.toNat + blockedBy x)
      ((writeFrames st).countP Frame.isWritable)) st x.out) :
    WakeRun (tr ++ [x]) x.out.state where
  awake := h.awake.of_wake hk hc hwake
  fired := by
    have hb := hwake.budget
    have := h.fired
    rw [countP_writeFrames_stack Frame.isWritable_facet] at hb
    rw [hooks_append, List.countP_append, wouldBlocks_append]
    omega

theorem Base.aborting (hb : Base u tr s st) (h : s.c.closeAbort = true) : s.c.wqClosing = true :=
  hb.refusing (hb.close.abort h)

theorem WakeRun.preserves (u : Setup) {P : SConfig → SAct → Prop}
    (hP : ∀ c a, P c a → NoBlockedEnd c a) :
    machine.Preserves P
      (fun tr s st => (Base u tr s st ∧ WriteInv s.w (writeFrames st)) ∧ WakeRun tr s) := by
  refine (Base.preservesWrite u P).strengthen ?_ ?_
  · intro tr s st op ⟨hb, hw⟩ h _
    exact h.step (enter_keeps op s) (enter_wqClosing hb op) (h.awake.enter hw hb.aborting op)
  · intro tr s st f v ⟨hb, hw⟩ h hp
    exact h.step (afterHook_keeps f v s) (fun hcl => (afterHook_ends s f v).wqClosing.trans hcl)
      (h.awake.afterHook hw hb.aborting v (hP _ _ hp))

theorem WakeRun.of_reach {c : SConfig} (hu : u.transport ≠ .writer)
    (hc : machine.Reach NoBlockedEnd u.stream c) : WakeRun c.trace c.state := by
  refine (hc.invariant ⟨⟨.start u, .start u⟩, ?_⟩ (WakeRun.preserves u fun _ _ h => h)).2
  rw [Setup.stream_eq]
  exact ⟨⟨by simp [hu], by simp, nofun⟩, Nat.zero_le _⟩

/-- A call of `on_writable` is one more on the stack. -/
theorem writable_added (hf : f.isWritable = true) (st : List Frame) :
    ¬ (writeFrames ((Out.call s f : SOut).stack st)).countP Frame.isWritable ≤
      (writeFrames st).countP Frame.isWritable := by
  rw [countP_writeFrames_stack Frame.isWritable_facet, Out.hook_call, Option.toList_some,
    List.countP_cons_of_pos hf]
  omega

/-- It is made by code that found the edge: the stream is open, and no `submit_fn` is
running. -/
theorem Wake.fired {cl : Bool} {n : Nat}
    (h : After (Wake cl n ((writeFrames st).countP Frame.isWritable)) st (.call s f))
    (hf : f.isWritable = true) : s.w.submitting = false ∧ cl = false :=
  ⟨h.outside.resolve_left (writable_added hf st), h.opened.resolve_left (writable_added hf st)⟩

/-- In every run of a completion stream in which no producer is blocked while a
`submit_fn` called by `kl_stream_write` ends the send: a blocked producer that waits
for `on_writable` on an open stream has a send in flight, and the write side has not
failed; `on_writable` is called once per WOULD_BLOCK at most, never inside
`kl_stream_write`, and never once a close has begun. -/
theorem writable_edge (u : Setup) (hu : u.transport ≠ .writer) (c : SConfig)
    (hc : machine.Reach NoBlockedEnd u.stream c) :
    (c.state.w.wrBlocked = true → c.state.w.onWritable = true → c.state.c.closeState = .opened →
      c.state.w.wqErr = false ∧ c.state.w.sendInflight = true) ∧
    (hooks c.trace).countP Frame.isWritable ≤ wouldBlocks c.trace ∧
    (∀ f, c.calling = some f → f.isWritable = true →
      c.stack.countP Frame.isWrite = 0 ∧ c.state.c.closeState = .opened) := by
  have h := WakeRun.of_reach hu hc
  have hb := Base.of_reach hc
  have hw := WriteInv.of_reach hc
  refine ⟨?_, Nat.le_trans (Nat.le_add_right _ _) h.fired, ?_⟩
  · intro hbl hon hopen
    have hi := h.awake.blocked hbl hon (hb.close.refuses.mp hopen)
    exact ⟨(hw.inflight hi).2, hi⟩
  intro f hcall hf
  obtain ⟨c₀, hc₀, hcalled⟩ := hc.called hcall
  have h₀ := WakeRun.of_reach hu hc₀
  have hb₀ := Base.of_reach hc₀
  have hw₀ := WriteInv.of_reach hc₀
  have hfired : c.state.w.submitting = false ∧ c.state.c.wqClosing = false := by
    cases hcalled with
    | enter op _ ho _ =>
      have ho : enter op c₀.state = .call c.state f := ho
      have hwake := h₀.awake.enter hw₀ hb₀.aborting op
      rw [ho] at hwake
      have hop : op.facet ≠ .close := by
        intro hop
        have hquiet := After.enter_other
          (I := fun _ ws => ws.countP Frame.isWritable ≤
            (writeFrames c₀.stack).countP Frame.isWritable)
          (s := c₀.state) (by rw [hop]; nofun) (Nat.le_refl _)
        rw [ho] at hquiet
        exact writable_added hf _ hquiet
      have hcl := (FacetOut.enter c₀.state hop).ends.wqClosing
      rw [ho] at hcl
      exact ⟨(Wake.fired hwake hf).1, hcl.trans (Wake.fired hwake hf).2⟩
    | resume g v rest hstack hp ho _ =>
      have ho : afterHook g v c₀.state = .call c.state f := ho
      obtain ⟨s₀, st₀, tr₀⟩ := c₀
      cases hstack
      have hwake := h₀.awake.afterHook hw₀ hb₀.aborting v hp
      rw [ho] at hwake
      have hcl := (afterHook_ends s₀ g v).wqClosing
      rw [ho] at hcl
      exact ⟨(Wake.fired hwake hf).1, hcl.trans (Wake.fired hwake hf).2⟩
  refine ⟨?_, hb.close.refuses.mpr hfired.2⟩
  rw [← countP_writeFrames Frame.isWrite_facet, List.countP_eq_zero]
  intro g hg hwr
  cases g with
  | submit len j =>
    have hpos : 0 < (writeFrames c.stack).countP Frame.isSubmit :=
      List.countP_pos_iff.mpr ⟨_, hg, rfl⟩
    rw [hw.submits, hfired.1] at hpos
    cases hpos
  | writeDirect data => simpa [Frame.isWriter] using hw.writers h.awake.mode _ hg
  | _ => cases hwr

/-- A write that does not fit behind a send in flight, and its completion. -/
theorem writable_edge_blocked : ∃ c, machine.run NoBlockedEnd (Machine.start copyingSetup.stream)
        [.call (.write (.bytes [1, 2, 3])), .ret 0, .call (.write (.bytes [4, 5, 6])),
          .call (.write (.bytes [7, 8]))] = some c ∧
      c.stack = [] ∧ c.state.w.wrBlocked = true ∧
      c.state.w.wqErr = false ∧ c.state.w.sendInflight = true := by
  refine Machine.exists_run ⟨_, rfl, fun hc => ⟨by decide, by decide, ?_⟩⟩
  exact (writable_edge copyingSetup (by decide) _ hc).1 (by decide) (by decide) (by decide)

/-- A second write, made inside `submit_fn`, is told WOULD_BLOCK; the send completes
inline and empties the queue. The outer write returns ACCEPTED, and the blocked
producer is left with no send in flight that would wake it. -/
theorem wakeup_lost : ∃ c, machine.run Machine.Any (Machine.start copyingSetup.stream)
        [.call (.write (.bytes [1, 2, 3])), .call (.write (.bytes [4, 5])),
          .call (.onWriteComplete true), .ret 0] = some c ∧
      c.stack = [] ∧ c.state.w.wrBlocked = true ∧ c.state.w.onWritable = true ∧
      c.state.c.closeState = .opened ∧ c.state.w.sendInflight = false ∧
      (hooks c.trace).countP Frame.isWritable = 0 ∧ wouldBlocks c.trace = 1 :=
  ⟨_, rfl, by decide, by decide, by decide, by decide, by decide, by decide, by decide⟩

end KlStream
