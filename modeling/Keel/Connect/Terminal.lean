-- SUMMARY: A connect operation reports once and loses no descriptor.
import Keel.Connect.Machine

/-!
# Terminal once, detached once

The invariant relates the flags of the operation to the frames on the stack and to
the hooks called so far. In the middle of `co_terminal` and of `co_request_cancels`
it is stated as if the frame of the hook called last were still on the stack: the
depth counters and the result on its way to `on_done` are those of that frame.
-/

open Reentrant List Option

namespace KlConnectOp

/-! ## What a frame stands for -/

/-- `in_start` counts it. -/
@[simp] def Frame.starting : Frame → Bool
  | .armDeadline _ | .startResolve | .startAttempt _ | .armDelay _ => true
  | _ => false

/-- How often `in_dispatch` counts it. -/
@[simp] def Frame.depth : Frame → Nat
  | .cancelDelay _ _ _ | .cancelDeadline _ _ _ | .onDone _ _ _ | .disposeFd _ => 1
  | .cancelResolve inTerminal | .cancelAttempt _ inTerminal => 1 + inTerminal.toNat
  | _ => 0

/-- `on_done` has still to be called by the caller. -/
@[simp] def Frame.preDone : Frame → Bool
  | .cancelDelay _ _ _ | .cancelDeadline _ _ _ => true
  | _ => false

/-- The descriptor that the caller will pass to `on_done`. -/
@[simp] def Frame.carried : Frame → Option Int
  | .cancelDelay .success fd _ | .cancelDeadline .success fd _ => some fd
  | _ => none

@[simp] def Frame.delayEv : Frame → Option Nat
  | .armDelay ev => some ev
  | _ => none

@[simp] def Frame.deadlineEv : Frame → Option Nat
  | .armDeadline ev => some ev
  | _ => none

@[simp] def Frame.isOnDone : Frame → Bool
  | .onDone _ _ _ => true
  | _ => false

@[simp] def Frame.isCancelResolve : Frame → Bool
  | .cancelResolve _ => true
  | _ => false

@[simp] def Frame.isCancelAttempt (i : Nat) : Frame → Bool
  | .cancelAttempt j _ => i == j
  | _ => false

@[simp] def Frame.isOnDetach : Frame → Bool
  | .onDetach => true
  | _ => false

/-- The descriptor handed over by `on_done`. -/
@[simp] def Frame.won : Frame → Option Int
  | .onDone .success fd _ => some fd
  | _ => none

/-- The descriptor handed over by `dispose_fd`. -/
@[simp] def Frame.disposed : Frame → Option Int
  | .disposeFd fd => some fd
  | _ => none

/-- None of the lists and counts above looks for it. -/
@[simp] def Frame.silent : Frame → Bool
  | .armDeadline _ | .startResolve | .startAttempt _ | .armDelay _ => true
  | .cancelDelay _ _ _ | .cancelDeadline _ _ _ => true
  | _ => false

/-- The descriptor an entry point is called with. -/
def Op.reported : Op → Option Int
  | .onAttemptConnected _ fd => some fd
  | _ => none

def starts (st : List Frame) : Nat := st.countP Frame.starting
def dispatches (st : List Frame) : Nat := (st.map Frame.depth).sum
def preDones (st : List Frame) : Nat := st.countP Frame.preDone
def carriedFds (st : List Frame) : List Int := st.filterMap Frame.carried
def delayEvs (st : List Frame) : List Nat := st.filterMap Frame.delayEv
def deadlineEvs (st : List Frame) : List Nat := st.filterMap Frame.deadlineEv

def dones (hk : List Frame) : Nat := hk.countP Frame.isOnDone
def detaches (hk : List Frame) : Nat := hk.countP Frame.isOnDetach
def resolveCancels (hk : List Frame) : Nat := hk.countP Frame.isCancelResolve
def attemptCancels (hk : List Frame) (i : Nat) : Nat := hk.countP (Frame.isCancelAttempt i)
def wonFds (hk : List Frame) : List Int := hk.filterMap Frame.won
def disposedFds (hk : List Frame) : List Int := hk.filterMap Frame.disposed

/-- The number of active attempts. -/
def countActive (active : Nat → Bool) : Nat := (List.range maxAddrs).countP active

/-- The descriptors reported so far through `kl_connect_op_on_attempt_connected`. -/
def reported (tr : List CStep) : List Int :=
  tr.filterMap fun x => match x.cause with
    | .enter op => op.reported
    | .resume _ _ => none

/-! ## Frames come and go -/

section

variable (f : Frame) (st hk : List Frame) (i : Nat)

@[simp] theorem starts_cons : starts (f :: st) = f.starting.toNat + starts st := by
  rw [starts, countP_cons, Nat.add_comm]
  cases f.starting <;> rfl

@[simp] theorem dispatches_cons : dispatches (f :: st) = f.depth + dispatches st := rfl

@[simp] theorem preDones_cons : preDones (f :: st) = f.preDone.toNat + preDones st := by
  rw [preDones, countP_cons, Nat.add_comm]
  cases f.preDone <;> rfl

theorem filterMap_cons_toList {α β : Type} (p : α → Option β) (a : α) (l : List α) :
    (a :: l).filterMap p = (p a).toList ++ l.filterMap p := by
  cases h : p a <;> simp [h]

@[simp] theorem carriedFds_cons : carriedFds (f :: st) = f.carried.toList ++ carriedFds st :=
  filterMap_cons_toList ..

@[simp] theorem delayEvs_cons : delayEvs (f :: st) = f.delayEv.toList ++ delayEvs st :=
  filterMap_cons_toList ..

@[simp] theorem deadlineEvs_cons : deadlineEvs (f :: st) = f.deadlineEv.toList ++ deadlineEvs st :=
  filterMap_cons_toList ..

@[simp] theorem reported_enter (tr : List CStep) (pre : KlConnectOp) (o : Op) (out : COut) :
    reported (tr ++ [⟨pre, .enter o, out⟩]) = reported tr ++ o.reported.toList := by
  rw [reported, filterMap_append, filterMap_cons_toList, filterMap_nil, append_nil]
  rfl

@[simp] theorem reported_resume (tr : List CStep) (pre : KlConnectOp) (g : Frame) (a : Answer)
    (out : COut) : reported (tr ++ [⟨pre, .resume g a, out⟩]) = reported tr := by
  rw [reported, filterMap_append, filterMap_cons_toList, filterMap_nil]
  exact append_nil _

theorem countP_concat (p : Frame → Bool) : (hk ++ [f]).countP p = hk.countP p + (p f).toNat := by
  rw [countP_append, countP_singleton]
  cases p f <;> rfl

@[simp] theorem dones_append : dones (hk ++ [f]) = dones hk + f.isOnDone.toNat := countP_concat ..

@[simp] theorem detaches_append : detaches (hk ++ [f]) = detaches hk + f.isOnDetach.toNat :=
  countP_concat ..

@[simp] theorem resolveCancels_append :
    resolveCancels (hk ++ [f]) = resolveCancels hk + f.isCancelResolve.toNat :=
  countP_concat ..

@[simp] theorem attemptCancels_append :
    attemptCancels (hk ++ [f]) i = attemptCancels hk i + (f.isCancelAttempt i).toNat :=
  countP_concat ..

@[simp] theorem wonFds_append : wonFds (hk ++ [f]) = wonFds hk ++ f.won.toList := by
  rw [wonFds, filterMap_append, filterMap_cons_toList, filterMap_nil, append_nil]
  rfl

@[simp] theorem disposedFds_append :
    disposedFds (hk ++ [f]) = disposedFds hk ++ f.disposed.toList := by
  rw [disposedFds, filterMap_append, filterMap_cons_toList, filterMap_nil, append_nil]
  rfl

end

/-! ## Counting flags -/

variable {l : List Nat} {G : Prop} {hs : KlConnectOpHooks} {op : KlConnectOp}

theorem countP_update_of_notMem {f : Nat → Bool} {a : Nat} {b : Bool} (ha : a ∉ l) :
    l.countP (Function.update f a b) = l.countP f := by
  refine countP_congr fun x hx => ?_
  have hne : x ≠ a := fun h => ha (h ▸ hx)
  rw [Function.update_of_ne hne]

/-- Setting a flag of a list without duplicates. -/
theorem countP_update (hl : l.Nodup) {f : Nat → Bool} {a : Nat} (ha : a ∈ l)
    (b : Bool) : l.countP (Function.update f a b) + (f a).toNat = l.countP f + b.toNat := by
  induction l with
  | nil => cases ha
  | cons x l ih =>
    obtain ⟨hx, hl⟩ := nodup_cons.mp hl
    rcases mem_cons.mp ha with rfl | ha
    · rw [countP_cons, countP_cons, countP_update_of_notMem hx]
      cases b <;> cases hf : f a <;> simp
    have hne : x ≠ a := fun h => hx (h ▸ ha)
    have := ih hl ha
    rw [countP_cons, countP_cons, Function.update_of_ne hne]
    omega

section

variable {active : Nat → Bool} {i : Nat}

theorem countActive_start (hi : i < maxAddrs) (ha : active i = false) :
    countActive (Function.update active i true) = countActive active + 1 := by
  have := countP_update nodup_range (f := active) (mem_range.mpr hi) true
  rw [ha, Bool.toNat_false, Nat.add_zero] at this
  exact this

theorem countActive_retire (hi : i < maxAddrs) (ha : active i = true) :
    countActive (Function.update active i false) = countActive active - 1 := by
  have := countP_update nodup_range (f := active) (mem_range.mpr hi) false
  simp only [ha, Bool.toNat_true, Bool.toNat_false] at this
  exact Nat.eq_sub_of_add_eq this

end

/-! ## The invariant -/

/-- The depth counters are those of the stack. -/
structure Depth (op : KlConnectOp) (st : List Frame) : Prop where
  inStart : op.inStart = starts st
  inDispatch : op.inDispatch = dispatches st

/-- What was reported and what was passed on: `rep` are the descriptors reported, `hk`
the hooks called. -/
structure Ledger (rep : List Int) (hk : List Frame) (op : KlConnectOp) (st : List Frame) :
    Prop where
  done : dones hk + preDones st = op.terminal.toNat
  fds : ∀ fd, rep.count fd =
    (wonFds hk).count fd + (disposedFds hk).count fd + (carriedFds st).count fd
  detach : detaches hk ≤ op.detached.toNat

/-- The attempts, and what was asked to cancel. -/
structure Attempts (hk : List Frame) (op : KlConnectOp) : Prop where
  pending : op.pending = countActive op.attemptActive
  bound : op.nextIdx ≤ op.naddrs ∧ op.naddrs ≤ maxAddrs
  fresh : ∀ i, op.nextIdx ≤ i → op.attemptActive i = false ∧ op.attemptCancelRequested i = false
  resolveCancel : resolveCancels hk = op.resolveCancelRequested.toNat
  attemptCancel : ∀ i, attemptCancels hk i = (op.attemptCancelRequested i).toNat

/-- The phases before the race. -/
structure Phases (op : KlConnectOp) (st : List Frame) : Prop where
  closed : op.terminal = true → op.state = .done ∨ op.state = .detached
  unresolved : op.state = .idle ∨ op.state = .resolving → op.nextIdx = 0
  resolving : op.resolveInflight = true → op.terminal = false → op.state = .resolving
  idle : op.state = .idle → op.resolveCancelRequested = false ∧ deadlineEvs st = []
  arming : deadlineEvs st ≠ [] → op.terminal = false →
    op.state = .resolving ∧ op.resolveInflight = false

/-- A timer `t`, where `evs` are the numbers of events at which the arm hooks on the
stack were called. A timer that is armed exists, or its arm hook is still running.
If `G`, a timer that exists is armed, and an arm hook whose timer was not consumed yet
has created none. -/
structure Armed (G : Prop) (t : KlConnectTimer) (evs : List Nat) : Prop where
  tracked : t.armed = true → t.live = true ∨ t.events ∈ evs
  calls : ∀ ev ∈ evs, ev ≤ t.events
  running : t.events ∈ evs → t.armed = true
  nested : evs.Pairwise (· > ·)
  known : G → t.live = true → t.armed = true
  uncreated : G → t.events ∈ evs → t.live = false

structure Timers (G : Prop) (op : KlConnectOp) (st : List Frame) : Prop where
  delay : Armed G op.delay (delayEvs st)
  deadline : Armed True op.deadline (deadlineEvs st)
  unarmed : op.state = .idle → op.deadline.armed = false
  /-- The deadline is armed once. -/
  single : (deadlineEvs st).length ≤ 1
  once : op.deadline.armed = true → ∀ ev ∈ deadlineEvs st, ev = op.deadline.events
  delayPaired : op.hooks.armDelay = true ∨ op.delay.armed = true → op.hooks.cancelDelay = true
  deadlinePaired :
    op.hooks.armDeadline = true ∨ op.deadline.armed = true → op.hooks.cancelDeadline = true

/-- `on_detach` was called with nothing below it on the stack that could come back. -/
def Calm : List Frame → Prop
  | [] => True
  | f :: st => (f = .onDetach → starts st = 0 ∧ dispatches st = 0) ∧ Calm st

/-- A detached operation has nothing outstanding, and never will. -/
structure Detachment (op : KlConnectOp) (st : List Frame) : Prop where
  quiet : op.detached = true → op.terminal = true ∧ op.resolveInflight = false ∧ op.pending = 0 ∧
    op.delay.armed = false ∧ op.deadline.armed = false
  calm : Calm st

structure Inv (G : Prop) (rep : List Int) (hk : List Frame) (op : KlConnectOp) (st : List Frame) :
    Prop extends Depth op st, Ledger rep hk op st, Attempts hk op, Phases op st, Timers G op st,
      Detachment op st

/-- The invariant after a stretch that ends with `o`. -/
def After (G : Prop) (rep : List Int) (hk : List Frame) (st : List Frame) (o : COut) : Prop :=
  Inv G rep (hk ++ o.hook.toList) o.state (o.stack st)

/-! ## Timers -/

section

variable {t : KlConnectTimer} {evs : List Nat}

theorem Armed.consume (h : Armed G t evs) : Armed G t.consume evs := by
  have hnot : t.events + 1 ∉ evs := fun hev => Nat.not_succ_le_self _ (h.calls _ hev)
  exact
    { tracked := nofun
      calls := fun ev hev => Nat.le_succ_of_le (h.calls ev hev)
      running := fun hev => absurd hev hnot
      nested := h.nested
      known := nofun
      uncreated := fun _ hev => absurd hev hnot }

/-- An arm hook is called while the timer is not armed. -/
theorem Armed.mark (h : Armed G t evs) (ha : t.armed = false) :
    Armed G t.mark (t.events :: evs) := by
  have hbelow (ev : Nat) (hev : ev ∈ evs) : ev < t.events := by
    refine Nat.lt_of_le_of_ne (h.calls ev hev) fun heq => ?_
    simp [h.running (heq ▸ hev)] at ha
  exact
    { tracked := fun _ => .inr mem_cons_self
      calls := by simpa using h.calls
      running := fun _ => rfl
      nested := pairwise_cons.mpr ⟨hbelow, h.nested⟩
      known := fun _ _ => rfl
      uncreated := fun hG _ => Bool.eq_false_iff.mpr fun hl => by simp [h.known hG hl] at ha }

/-- The arm hook called after `ev` events returns. If `G`, it does not report a failure
after its timer was consumed and a later one is armed. -/
theorem Armed.armReturned {ev : Nat} {r : Int} (h : Armed G t (ev :: evs))
    (hr : G → r < 0 → t.armed = true → ev = t.events) : Armed G (t.armReturned ev r) evs := by
  obtain ⟨hbelow, hnested⟩ := pairwise_cons.mp h.nested
  have hnot : t.events ∉ evs := fun hx =>
    Nat.not_le.mpr (hbelow _ hx) (h.calls ev mem_cons_self)
  by_cases hneg : r < 0
  · have hpos : ¬ 0 ≤ r := Int.not_le.mpr hneg
    exact
      { tracked := by simp [hpos]
        calls := fun x hx => h.calls x (mem_cons_of_mem _ hx)
        running := fun hx => absurd hx hnot
        nested := hnested
        known := fun hG hl => by
          have hl : t.live = true := by simpa [hpos] using hl
          have heq := hr hG hneg (h.known hG hl)
          simp [h.uncreated hG (by simp [heq])] at hl
        uncreated := fun _ hx => absurd hx hnot }
  have hpos : 0 ≤ r := Int.not_lt.mp hneg
  exact
    { tracked := fun ha => by
        have ha : t.armed = true := by simpa [hpos] using ha
        refine .inl ?_
        rcases h.tracked ha with hl | hev
        · simp [hl]
        · rcases mem_cons.mp hev with heq | hev
          · simp [hpos, heq]
          · exact absurd hev hnot
      calls := fun x hx => h.calls x (mem_cons_of_mem _ hx)
      running := fun hx => absurd hx hnot
      nested := hnested
      known := fun hG hl => by
        simp only [KlConnectTimer.armReturned, hpos, decide_true, Bool.true_and, Bool.or_eq_true,
          beq_iff_eq, Bool.and_true] at hl ⊢
        rcases hl with hl | heq
        · exact h.known hG hl
        · exact h.running (by simp [heq])
      uncreated := fun _ hx => absurd hx hnot }

end

section

variable {rep : List Int} {hk st : List Frame} {f : Frame}

theorem After.done {r : Int} (h : Inv G rep hk op st) : After G rep hk st (.done op r) := by
  simpa [After] using h

theorem Frame.silent_spec (hf : f.silent = true) :
    f.isOnDone = false ∧ f.isOnDetach = false ∧ f.isCancelResolve = false ∧
      (∀ i, f.isCancelAttempt i = false) ∧ f.won = none ∧ f.disposed = none := by
  cases f <;> simp_all

/-- A hook nobody counts. -/
theorem After.call (h : Inv G rep hk op (f :: st)) (hf : f.silent = true) :
    After G rep hk st (.call op f) := by
  obtain ⟨hdone, hdetach, hresolve, hattempt, hwon, hdisposed⟩ := f.silent_spec hf
  exact { h with
    done := by
      rw [Out.hook_call, toList_some, dones_append, hdone]
      exact h.done
    fds := by
      rw [Out.hook_call, toList_some, wonFds_append, disposedFds_append, hwon, hdisposed]
      simpa using h.fds
    detach := by
      rw [Out.hook_call, toList_some, detaches_append, hdetach]
      exact h.detach
    resolveCancel := by
      rw [Out.hook_call, toList_some, resolveCancels_append, hresolve]
      exact h.resolveCancel
    attemptCancel := fun i => by
      rw [Out.hook_call, toList_some, attemptCancels_append, hattempt i]
      exact h.attemptCancel i }

variable {i : Nat} {inTerminal : Bool}

theorem Attempts.active_lt (h : Attempts hk op) (ha : op.attemptActive i = true) :
    i < maxAddrs := by
  refine Nat.lt_of_not_le fun hi => ?_
  have := h.fresh i (Nat.le_trans (Nat.le_trans h.bound.1 h.bound.2) hi)
  simp [ha] at this

theorem Detachment.attached (h : Detachment op st) (ht : op.terminal = false) :
    op.detached = false := by
  cases hd : op.detached with
  | false => rfl
  | true => simp [(h.quiet hd).1] at ht

/-- A timer that is armed can be cancelled. -/
theorem Timers.delay_off (h : Timers G op st)
    (hnot : ¬(op.delay.armed && op.hooks.cancelDelay) = true) : op.delay.armed = false := by
  cases ha : op.delay.armed with
  | false => rfl
  | true => simp [ha, h.delayPaired (.inr ha)] at hnot

theorem Timers.deadline_off (h : Timers G op st)
    (hnot : ¬(op.deadline.armed && op.hooks.cancelDeadline) = true) :
    op.deadline.armed = false := by
  cases ha : op.deadline.armed with
  | false => rfl
  | true => simp [ha, h.deadlinePaired (.inr ha)] at hnot

/-! ## Detachment -/

/-- `co_finalize`. -/
theorem Inv.finalize (h : Inv G rep hk op st) : After G rep hk st op.finalize := by
  unfold KlConnectOp.finalize
  split
  · exact .done h
  split
  · exact .done h
  split
  · exact .done h
  split
  · exact .done h
  split
  · exact .done h
  split
  · exact .done h
  rename_i hterm hdepth hres hpending harmed hdet
  have hterm : op.terminal = true := by simpa using hterm
  simp only [not_or, ne_eq, not_not] at hdepth hpending
  simp only [Bool.or_eq_true, not_or, Bool.not_eq_true] at harmed
  have hres : op.resolveInflight = false := by simpa using hres
  have hnone : detaches hk = 0 := by simpa [hdet] using h.detach
  have hgone : Inv G rep hk op.detach st := { h with
      detach := by simp [hnone]
      closed := fun _ => .inr rfl
      unresolved := nofun
      unarmed := nofun
      resolving := fun hr => by simp [hres] at hr
      idle := nofun
      arming := fun _ ht => by simp [hterm] at ht
      quiet := fun _ => ⟨hterm, hres, hpending, harmed⟩ }
  split
  · exact { hgone with
    inStart := by simpa using hgone.inStart
    inDispatch := by simpa using hgone.inDispatch
    done := by simpa using hgone.done
    fds := by simpa using hgone.fds
    detach := by simp [hnone]
    resolveCancel := by simpa using hgone.resolveCancel
    attemptCancel := by simpa using hgone.attemptCancel
    calm := ⟨fun _ => ⟨h.inStart ▸ hdepth.1, h.inDispatch ▸ hdepth.2⟩, h.calm⟩ }
  · exact .done hgone

/-! ## Cancel requests -/

theorem nextCancel_some {j : Nat} (h : op.nextCancel i = some j) :
    op.attemptActive j = true ∧ op.attemptCancelRequested j = false := by
  have := find?_some h
  simp only [Bool.and_eq_true, Bool.not_eq_true'] at this
  exact ⟨this.1.1.2, this.2⟩

/-- A hook returned that armed no timer and has nothing to pass on. -/
theorem Inv.pop {n m : Nat} (h : Inv G rep hk op (f :: st))
    (hev : f.delayEv = none ∧ f.deadlineEv = none)
    (hpass : f.preDone = false ∧ f.carried = none) (hn : n = starts st) (hm : m = dispatches st) :
    Inv G rep hk { op with inStart := n, inDispatch := m } st := by
  have hdone := h.done
  have hfds := h.fds
  have hidle := h.idle
  have harming := h.arming
  have hdelay := h.delay
  have hdeadline := h.deadline
  have hsingle := h.single
  have honce := h.once
  rw [preDones_cons, hpass.1] at hdone
  rw [carriedFds_cons, hpass.2] at hfds
  rw [deadlineEvs_cons, hev.2] at hidle harming hdeadline hsingle honce
  rw [delayEvs_cons, hev.1] at hdelay
  exact { h with
    inStart := hn
    inDispatch := hm
    done := by simpa using hdone
    fds := hfds
    idle := hidle
    arming := harming
    delay := hdelay
    deadline := hdeadline
    single := hsingle
    once := honce
    calm := h.calm.2 }

/-- A start hook returned. -/
theorem Inv.leaveStart (h : Inv G rep hk op (f :: st)) (hs : f.starting = true)
    (hev : f.delayEv = none ∧ f.deadlineEv = none) : Inv G rep hk op.leaveStart st := by
  obtain ⟨hdepth, hpass⟩ : f.depth = 0 ∧ f.preDone = false ∧
    f.carried = none := by cases f <;> simp_all
  refine h.pop hev hpass ?_ ?_
  · rw [h.inStart, starts_cons, hs]
    exact Nat.add_sub_cancel_left ..
  · rw [h.inDispatch, dispatches_cons, hdepth, Nat.zero_add]

/-- The loop of `co_request_cancels`, with its own frame on the stack. -/
theorem Inv.cancelAttempts (h : Inv G rep hk op (.cancelResolve inTerminal :: st)) :
    After G rep hk st (op.cancelAttempts i inTerminal) := by
  unfold KlConnectOp.cancelAttempts
  split
  · next j hj =>
    obtain ⟨hactive, hreq⟩ := nextCancel_some hj
    exact { h with
      done := by simpa using h.done
      fds := by simpa using h.fds
      detach := by simpa using h.detach
      fresh := fun k hk' => by
        have hne : k ≠ j := by
          rintro rfl
          simp [(h.fresh k hk').1] at hactive
        simpa [Function.update_of_ne hne] using h.fresh k hk'
      resolveCancel := by simpa using h.resolveCancel
      attemptCancel := fun k => by
        have hk' := h.attemptCancel k
        by_cases hkj : k = j
        · subst hkj
          simp [hk', hreq]
        · simp [hk', hkj]
      calm := ⟨nofun, h.calm.2⟩ }
  · -- the frame of `co_request_cancels` ends, and that of `co_terminal` with it
    cases inTerminal with
    | true =>
      exact (h.pop ⟨rfl, rfl⟩ ⟨rfl, rfl⟩ (by simpa using h.inStart)
        (by simp [h.inDispatch])).finalize
    | false =>
      exact (h.pop ⟨rfl, rfl⟩ ⟨rfl, rfl⟩ (by simpa using h.inStart)
        (by simp [h.inDispatch])).finalize

/-- `co_request_cancels`, entered with the frame that `inTerminal` says on the stack. -/
theorem Inv.requestCancels (h : Inv G rep hk op.enterDispatch (.cancelResolve inTerminal :: st)) :
    After G rep hk st (op.requestCancels inTerminal) := by
  unfold KlConnectOp.requestCancels
  split
  · next hreq =>
    have hinfl : op.resolveInflight = true := by simp_all
    have hnone : resolveCancels hk = 0 := by
      have hreq : op.resolveCancelRequested = false := by simp_all
      simpa [hreq] using h.resolveCancel
    exact { h with
      done := by simpa using h.done
      fds := by simpa using h.fds
      detach := by simpa using h.detach
      resolveCancel := by simp [hnone]
      attemptCancel := by simpa using h.attemptCancel
      idle := fun hi => by
        -- an idle operation has no resolve in flight
        have hi : op.state = .idle := hi
        cases ht : op.terminal with
        | true => simpa [hi] using h.closed ht
        | false => simpa [hi] using h.resolving hinfl ht }
  · exact Inv.cancelAttempts h

/-! ## The terminal -/

/-- The descriptor that `co_terminal` takes over with `result`. -/
def wins (result : KlConnectResult) (fd : Int) : List Int :=
  match result with
  | .success => [fd]
  | _ => []

section

variable {result : KlConnectResult} {fd error : Int}

/-- Disarming either timer is the same to the rest of `co_terminal`. -/
theorem Inv.disarming : Inv G rep hk op (.cancelDelay result fd error :: st) ↔
      Inv G rep hk op (.cancelDeadline result fd error :: st) := by
  constructor
  · intro h
    exact { h with
      fds := fun x => by cases result <;> simpa using h.fds x
      calm := ⟨nofun, h.calm.2⟩ }
  · intro h
    exact { h with
      fds := fun x => by cases result <;> simpa using h.fds x
      calm := ⟨nofun, h.calm.2⟩ }

/-- `on_done` is called, at the end of the disarming. -/
theorem Inv.callDone (h : Inv G rep hk op (.cancelDeadline result fd error :: st)) :
    After G rep hk st (.call op (.onDone result fd error)) :=
  { h with
    done := by
      have hdone := h.done
      simp only [preDones_cons, Frame.preDone, Bool.toNat_true] at hdone
      simp
      omega
    fds := fun x => by
      have hx := h.fds x
      cases result with
      | success =>
        simp only [carriedFds_cons, Frame.carried, toList_some, count_append] at hx
        simp
        omega
      | failed => simpa using hx
      | cancelled => simpa using hx
    detach := by simpa using h.detach
    resolveCancel := by simpa using h.resolveCancel
    attemptCancel := by simpa using h.attemptCancel
    calm := ⟨nofun, h.calm.2⟩ }

/-- `co_terminal` once the delay is disarmed. -/
theorem Inv.disarmDeadline (h : Inv G rep hk op (.cancelDelay result fd error :: st)) :
    After G rep hk st (op.disarmDeadline result fd error) := by
  unfold KlConnectOp.disarmDeadline
  split
  · exact .call (Inv.disarming.mp h) rfl
  · next hnot =>
    rw [KlConnectTimer.off_eq (h.deadline_off hnot)]
    exact (Inv.disarming.mp h).callDone

/-- `co_terminal`, which takes over the winning descriptor. -/
theorem Inv.coTerminal (h : Inv G rep hk op st) (ht : op.terminal = false) :
    After G (rep ++ wins result fd) hk st (op.coTerminal result fd error) := by
  have hdone := h.done
  rw [ht, Bool.toNat_false] at hdone
  have hover : Inv G (rep ++ wins result fd) hk (op.settle result fd error)
      (.cancelDelay result fd error :: st) :=
    { h with
      inStart := by simpa using h.inStart
      inDispatch := by simp [h.inDispatch, Nat.add_comm]
      done := by
        simp
        omega
      fds := fun x => by
        have hx := h.fds x
        cases result with
        | success =>
          simp only [wins, carriedFds_cons, Frame.carried, toList_some, count_append]
          omega
        | failed => simpa [wins] using hx
        | cancelled => simpa [wins] using hx
      closed := fun _ => .inl rfl
      unresolved := nofun
      unarmed := nofun
      resolving := nofun
      idle := nofun
      arming := nofun
      quiet := fun hd => by simp [h.attached ht] at hd
      calm := ⟨nofun, h.calm⟩ }
  unfold KlConnectOp.coTerminal
  rw [if_neg (by simp [ht])]
  unfold KlConnectOp.disarmDelay
  split
  · exact .call hover rfl
  · next hnot =>
    rw [KlConnectTimer.off_eq (hover.delay_off hnot)]
    exact hover.disarmDeadline

/-- `co_terminal` without a descriptor. -/
theorem Inv.fail (h : Inv G rep hk op st) (hr : result ≠ .success) :
    After G rep hk st (op.coTerminal result fd error) := by
  have hw : rep ++ wins result fd = rep := by
    cases result with
    | success => exact absurd rfl hr
    | failed => exact append_nil rep
    | cancelled => exact append_nil rep
  cases ht : op.terminal with
  | false => exact hw ▸ h.coTerminal ht
  | true =>
    unfold KlConnectOp.coTerminal
    rw [if_pos ht]
    exact h.finalize

/-- `co_dispose`. -/
theorem Inv.dispose (h : Inv G rep hk op st) : After G (rep ++ [fd]) hk st (op.dispose fd) :=
  { h with
    inStart := by simpa [KlConnectOp.dispose] using h.inStart
    inDispatch := by simp [KlConnectOp.dispose, h.inDispatch, Nat.add_comm]
    done := by simpa [KlConnectOp.dispose] using h.done
    fds := fun x => by
      have hx := h.fds x
      simp [KlConnectOp.dispose]
      omega
    detach := by simpa [KlConnectOp.dispose] using h.detach
    resolveCancel := by simpa [KlConnectOp.dispose] using h.resolveCancel
    attemptCancel := by simpa [KlConnectOp.dispose] using h.attemptCancel
    calm := ⟨nofun, h.calm⟩ }

end

/-! ## The race -/

/-- `co_start_next`. -/
theorem Inv.startNext (h : Inv G rep hk op st) : After G rep hk st op.startNext := by
  unfold KlConnectOp.startNext
  split
  · next hgo =>
    obtain ⟨hstate, hterm, hlt⟩ := hgo
    obtain ⟨hactive, hreq⟩ := h.fresh op.nextIdx (Nat.le_refl _)
    have hmax : op.nextIdx < maxAddrs := Nat.lt_of_lt_of_le hlt h.bound.2
    refine .call ?_ rfl
    exact { h with
      inStart := by simp [h.inStart, Nat.add_comm]
      inDispatch := by simpa using h.inDispatch
      pending := by
        show op.pending + 1 = countActive (Function.update op.attemptActive op.nextIdx true)
        rw [countActive_start hmax hactive, h.pending]
      bound := ⟨hlt, h.bound.2⟩
      fresh := fun i hi => by
        have hne : i ≠ op.nextIdx := by
          intro heq
          exact Nat.not_succ_le_self _ (heq ▸ hi)
        simpa [Function.update_of_ne hne] using h.fresh i (Nat.le_of_succ_le hi)
      attemptCancel := fun i => by
        by_cases hi : i = op.nextIdx
        · subst hi
          simpa [hreq] using h.attemptCancel op.nextIdx
        · simpa [Function.update_of_ne hi] using h.attemptCancel i
      unresolved := fun hs => by simp [hstate] at hs
      idle := fun hs => by simp [hstate] at hs
      unarmed := fun hs => by simp [hstate] at hs
      quiet := fun hd => by simp [h.attached hterm] at hd
      calm := ⟨nofun, h.calm⟩ }
  · split
    · exact h.fail nofun
    · exact h.finalize

/-- `co_start_next` after an attempt was started: the delay for the next one. -/
theorem Inv.attemptStarted (h : Inv G rep hk op st) : After G rep hk st op.attemptStarted := by
  unfold KlConnectOp.attemptStarted
  split
  · next hgo =>
    obtain ⟨hhook, -, hterm, -, hoff⟩ := hgo
    refine .call ?_ rfl
    exact { h with
      inStart := by simp [h.inStart, Nat.add_comm]
      inDispatch := by simpa using h.inDispatch
      delay := h.delay.mark hoff
      delayPaired := fun _ => h.delayPaired (.inl hhook)
      quiet := fun hd => by simp [h.attached hterm] at hd
      calm := ⟨nofun, h.calm⟩ }
  · exact h.finalize

/-- An attempt is over. -/
theorem Inv.retireAttempt (h : Inv G rep hk op st) (ha : op.attemptActive i = true) :
    Inv G rep hk (op.retireAttempt i) st :=
  { h with
    pending := by
      show op.pending - 1 = countActive (Function.update op.attemptActive i false)
      rw [countActive_retire (h.active_lt ha) ha, h.pending]
    fresh := fun j hj => by
      have hne : j ≠ i := by
        rintro rfl
        simp [(h.fresh j hj).1] at ha
      simpa [Function.update_of_ne hne] using h.fresh j hj
    quiet := fun hd => by
      obtain ⟨hterm, hres, hpending, harmed⟩ := h.quiet hd
      exact ⟨hterm, hres, by simp [hpending], harmed⟩ }

/-! ## Entry points -/

section

variable (h : Inv G rep hk op st)
include h

theorem Inv.retireResolve : Inv G rep hk op.retireResolve st := { h with
    resolving := nofun
    arming := fun hev ht => ⟨(h.arming hev ht).1, rfl⟩
    quiet := fun hd => ⟨(h.quiet hd).1, rfl, (h.quiet hd).2.2⟩ }

theorem Inv.resolve (hs : op.state = .resolving) (hterm : op.terminal = false)
    (hd : deadlineEvs st = []) : After G rep hk st op.resolve := by
  refine .call ?_ rfl
  exact { h with
    inStart := by simp [h.inStart, Nat.add_comm]
    inDispatch := by simpa using h.inDispatch
    resolving := fun _ _ => hs
    arming := fun hev => by simp [hd] at hev
    quiet := fun hd => by simp [h.attached hterm] at hd
    calm := ⟨nofun, h.calm⟩ }

theorem Inv.start : After G rep hk st op.start := by
  unfold KlConnectOp.start
  split
  · exact .done h
  rename_i hidle
  have hidle : op.state = .idle := by simpa using hidle
  obtain ⟨hreq, hev⟩ := h.idle hidle
  have hterm : op.terminal = false := by
    cases ht : op.terminal with
    | false => rfl
    | true => simpa [hidle] using h.closed ht
  have hinfl : op.resolveInflight = false := by
    cases hr : op.resolveInflight with
    | false => rfl
    | true => simpa [hidle] using h.resolving hr hterm
  have hbegin : Inv G rep hk op.beginResolving st := { h with
      closed := fun ht => by simp [hterm] at ht
      unresolved := fun _ => h.unresolved (.inl hidle)
      resolving := fun _ _ => rfl
      resolveCancel := by simpa [hreq] using h.resolveCancel
      idle := nofun
      unarmed := nofun
      arming := fun hne => by simp [hev] at hne }
  split
  · next hhook =>
    refine .call ?_ rfl
    exact { hbegin with
      inStart := by simp [h.inStart, Nat.add_comm]
      inDispatch := by simpa using h.inDispatch
      deadline := hbegin.deadline.mark (h.unarmed hidle)
      single := by simp [hev]
      once := fun _ => by simp [hev]
      idle := nofun
      unarmed := nofun
      arming := fun _ _ => ⟨rfl, hinfl⟩
      deadlinePaired := fun _ => h.deadlinePaired (.inl hhook)
      quiet := fun hd => by simp [h.attached hterm] at hd
      calm := ⟨nofun, h.calm⟩ }
  · exact hbegin.resolve rfl hterm hev

theorem Inv.onResolved (naddrs : Int) : After G rep hk st (op.onResolved naddrs) := by
  unfold KlConnectOp.onResolved
  split
  · exact .done h
  rename_i hinfl
  have hinfl : op.resolveInflight = true := by simpa using hinfl
  split
  · exact h.retireResolve.finalize
  rename_i hterm
  have hterm : op.terminal = false := by simpa using hterm
  have hidx : op.nextIdx = 0 := h.unresolved (.inr (h.resolving hinfl hterm))
  have hbegin (n : Nat) (hn : n ≤ maxAddrs) : Inv G rep hk (op.beginConnecting n) st := { h with
      bound := ⟨Nat.zero_le _, hn⟩
      fresh := fun i hi => h.fresh i (hidx ▸ hi)
      closed := fun ht => by simp [hterm] at ht
      unresolved := nofun
      resolving := nofun
      idle := nofun
      unarmed := nofun
      arming := fun hev _ => by
        -- no resolve is in flight while the deadline is being armed
        simp [(h.arming hev hterm).2] at hinfl
      quiet := fun hd => by simp [h.attached hterm] at hd }
  split
  · exact (hbegin 0 (Nat.zero_le _)).fail nofun
  · exact (hbegin _ (Nat.min_le_right _ _)).startNext

theorem Inv.setError (error : Int) : Inv G rep hk (op.setError error) st := { h with }

theorem Inv.onResolveFailed (error : Int) : After G rep hk st (op.onResolveFailed error) := by
  unfold KlConnectOp.onResolveFailed
  split
  · exact .done h
  · exact (h.retireResolve.setError error).fail nofun

theorem Inv.onAttemptConnected (idx fd : Int) :
    After G (rep ++ [fd]) hk st (op.onAttemptConnected idx fd) := by
  unfold KlConnectOp.onAttemptConnected
  split
  · exact h.dispose
  split
  · exact h.dispose
  next hactive =>
  have hactive : op.attemptActive idx.toNat = true := by simpa using hactive
  split
  · exact (h.retireAttempt hactive).dispose
  next hterm =>
  have hwon : After G (rep ++ wins .success fd) hk st
      ((op.retireAttempt idx.toNat).coTerminal .success fd 0) :=
    (h.retireAttempt hactive).coTerminal (by simpa using hterm)
  exact hwon

theorem Inv.onAttemptFailed (idx error : Int) :
    After G rep hk st (op.onAttemptFailed idx error) := by
  unfold KlConnectOp.onAttemptFailed
  split
  · exact .done h
  split
  · exact .done h
  rename_i hactive
  have hfailed := (h.retireAttempt (by simpa using hactive)).setError error
  unfold KlConnectOp.attemptFailed
  split
  · exact hfailed.finalize
  split
  · exact hfailed.startNext
  split
  · exact hfailed.fail nofun
  · exact hfailed.finalize

theorem Inv.consumeDelay : Inv G rep hk (op.setDelay op.delay.consume) st := { h with
    delay := h.delay.consume
    delayPaired := fun ha => h.delayPaired (.inl (by simpa using ha))
    quiet := fun hd => by
      obtain ⟨hterm, hres, hpending, -, harmed⟩ := h.quiet hd
      exact ⟨hterm, hres, hpending, rfl, harmed⟩ }

theorem Inv.consumeDeadline : Inv G rep hk (op.setDeadline op.deadline.consume) st := { h with
    deadline := h.deadline.consume
    once := nofun
    unarmed := fun _ => rfl
    deadlinePaired := fun ha => h.deadlinePaired (.inl (by simpa using ha))
    quiet := fun hd => by
      obtain ⟨hterm, hres, hpending, harmed, -⟩ := h.quiet hd
      exact ⟨hterm, hres, hpending, harmed, rfl⟩ }

theorem Inv.onDelay : After G rep hk st op.onDelay := by
  unfold KlConnectOp.onDelay
  split
  · exact .done h.consumeDelay
  split
  · exact h.consumeDelay.startNext
  · exact h.consumeDelay.finalize

theorem Inv.onDeadline (error : Int) : After G rep hk st (op.onDeadline error) := by
  unfold KlConnectOp.onDeadline
  split
  · exact .done h.consumeDeadline
  · exact h.consumeDeadline.fail nofun

theorem Inv.cancel : After G rep hk st op.cancel := by
  unfold KlConnectOp.cancel
  split
  · exact .done h
  split
  · exact h.fail nofun
  refine Inv.requestCancels
    { h with inStart := ?_, inDispatch := ?_, done := ?_, calm := ⟨nofun, h.calm⟩ }
  · simpa using h.inStart
  · simp [h.inDispatch, Nat.add_comm]
  · simpa using h.done

/-- What an entry point reports. -/
theorem Inv.enter (o : Op) : After G (rep ++ o.reported.toList) hk st (KlConnectOp.enter o op) := by
  cases o with
  | onAttemptConnected idx fd => exact h.onAttemptConnected idx fd
  | start => simpa [Op.reported, KlConnectOp.enter] using h.start
  | onResolved n => simpa [Op.reported, KlConnectOp.enter] using h.onResolved n
  | onResolveFailed e => simpa [Op.reported, KlConnectOp.enter] using h.onResolveFailed e
  | onAttemptFailed idx e => simpa [Op.reported, KlConnectOp.enter] using h.onAttemptFailed idx e
  | onDelay => simpa [Op.reported, KlConnectOp.enter] using h.onDelay
  | onDeadline e => simpa [Op.reported, KlConnectOp.enter] using h.onDeadline e
  | cancel => simpa [Op.reported, KlConnectOp.enter] using h.cancel

end

/-! ## After a hook -/

theorem Inv.deadlineReturned {ev : Nat} (h : Inv G rep hk op (.armDeadline ev :: st)) (a : Answer) :
    After G rep hk st (op.deadlineReturned ev a) := by
  have hdeadline : Armed True (op.deadline.armReturned ev a.r) (deadlineEvs st) :=
    Armed.armReturned h.deadline fun _ _ ha => h.once ha ev (by simp)
  have hpop : Inv G rep hk (op.leaveStart.setDeadline (op.deadline.armReturned ev a.r)) st :=
    { h with
      inStart := by simp [h.inStart]
      inDispatch := by simpa using h.inDispatch
      done := by simpa using h.done
      deadline := hdeadline
      unarmed := fun hi => by simpa using (h.idle hi).2
      idle := fun hi => by simpa using (h.idle hi).2
      arming := fun _ => h.arming (by simp)
      single := Nat.le_trans (by simp) h.single
      once := fun ha x hx => by
        have ha : op.deadline.armed = true := by
          simp only [KlConnectOp.setDeadline, KlConnectTimer.armReturned, Bool.and_eq_true] at ha
          exact ha.1
        exact h.once ha x (by simp [hx])
      deadlinePaired := fun ha => by
        refine h.deadlinePaired (ha.imp_right fun ha => ?_)
        simp only [KlConnectOp.setDeadline, KlConnectTimer.armReturned, Bool.and_eq_true] at ha
        exact ha.1
      quiet := fun hd => by
        obtain ⟨hterm, hres, hpending, hdelay, harmed⟩ := h.quiet hd
        exact ⟨hterm, hres, hpending, hdelay, by simp [harmed]⟩
      calm := h.calm.2 }
  unfold KlConnectOp.deadlineReturned
  split
  · exact hpop.fail nofun
  split
  · exact hpop.finalize
  next hterm =>
  have hterm : op.terminal = false := by simpa using hterm
  obtain ⟨hstate, -⟩ := h.arming (by simp) hterm
  refine hpop.resolve hstate hterm (eq_nil_of_length_eq_zero ?_)
  simpa using h.single

theorem Inv.delayReturned {ev : Nat} (h : Inv G rep hk op (.armDelay ev :: st)) (a : Answer)
    (ha : G → a.r < 0 → op.delay.armed = true → ev = op.delay.events) :
    After G rep hk st (op.delayReturned ev a) := by
  have hpop : Inv G rep hk (op.leaveStart.setDelay (op.delay.armReturned ev a.r)) st := { h with
      inStart := by simp [h.inStart]
      inDispatch := by simpa using h.inDispatch
      done := by simpa using h.done
      delay := Armed.armReturned h.delay ha
      delayPaired := fun hd => by
        refine h.delayPaired (hd.imp_right fun hd => ?_)
        simp only [KlConnectOp.setDelay, KlConnectTimer.armReturned, Bool.and_eq_true] at hd
        exact hd.1
      quiet := fun hd => by
        obtain ⟨hterm, hres, hpending, hdelay, harmed⟩ := h.quiet hd
        exact ⟨hterm, hres, hpending, by simp [hdelay], harmed⟩
      calm := h.calm.2 }
  unfold KlConnectOp.delayReturned
  split
  · exact hpop.startNext
  · exact hpop.finalize

/-- The code after a hook. -/
theorem Inv.afterHook (h : Inv G rep hk op (f :: st)) (a : Answer)
    (ha : ∀ ev, f = .armDelay ev → G → a.r < 0 → op.delay.armed = true → ev = op.delay.events) :
    After G rep hk st (KlConnectOp.afterHook f a op) := by
  cases f with
  | armDeadline ev => exact h.deadlineReturned a
  | armDelay ev => exact h.delayReturned a (ha ev rfl)
  | startResolve =>
    have hpop := h.leaveStart rfl ⟨rfl, rfl⟩
    simp only [afterHook, resolveReturned]
    split
    · exact hpop.retireResolve.fail nofun
    · exact hpop.finalize
  | startAttempt idx =>
    have hpop := h.leaveStart rfl ⟨rfl, rfl⟩
    simp only [afterHook, attemptReturned]
    split
    · exact hpop.attemptStarted
    next hactive =>
    split
    · exact ((hpop.retireAttempt (by simpa using hactive)).setError a.err).startNext
    · exact hpop.attemptStarted
  | cancelDelay result fd error => exact h.consumeDelay.disarmDeadline
  | cancelDeadline result fd error => exact h.consumeDeadline.callDone
  | onDone result fd error =>
    -- `co_request_cancels` adds its own level to that of `co_terminal`
    refine Inv.requestCancels { h with inDispatch := ?_, calm := ⟨nofun, h.calm.2⟩ }
    simp [h.inDispatch]
    omega
  | cancelResolve inTerminal => exact h.cancelAttempts
  | cancelAttempt idx inTerminal =>
    have hloop : Inv G rep hk op (.cancelResolve inTerminal :: st) :=
      { h with calm := ⟨nofun, h.calm.2⟩ }
    exact hloop.cancelAttempts
  | disposeFd fd =>
    exact (h.pop ⟨rfl, rfl⟩ ⟨rfl, rfl⟩ (by simpa using h.inStart) (by simp [h.inDispatch])).finalize
  | onDetach =>
    exact .done (h.pop ⟨rfl, rfl⟩ ⟨rfl, rfl⟩ (by simpa using h.inStart)
      (by simpa using h.inDispatch))

end

/-! ## Whole runs -/

/-- The arm hook does not report a failure after the delay it armed has fired inside it
and a later delay is armed. -/
def FiredNotFailed (c : CConfig) (a : CAct) : Prop :=
  match a, c.stack with
  | .ret ans, .armDelay ev :: _ => ans.r < 0 → c.state.delay.armed = true →
    ev = c.state.delay.events
  | _, _ => True

instance (c : CConfig) (a : CAct) : Decidable (FiredNotFailed c a) := by
  unfold FiredNotFailed
  split
  · exact inferInstance
  · exact inferInstance

theorem Inv.preserves {P : CConfig → CAct → Prop} (hP : ∀ c a, P c a → G → FiredNotFailed c a) :
    machine.Preserves P fun tr op st => Inv G (reported tr) (Reentrant.hooks tr) op st where
  enter tr op st o h _ := by
    rw [hooks_append, reported_enter]
    exact h.enter o
  resume tr op st f a h hp := by
    rw [hooks_append, reported_resume]
    refine h.afterHook a fun ev hf hG => ?_
    subst hf
    exact hP _ _ hp hG

/-- An initialized operation. -/
theorem Inv.init (h : init hs = some op) : Inv G [] [] op [] := by
  unfold KlConnectOp.init at h
  split at h
  · cases h
  split at h
  · cases h
  split at h
  · cases h
  split at h
  · cases h
  rename_i hdelay hdeadline
  cases h
  have hidle (G : Prop) : Armed G {} [] :=
    { tracked := nofun, calls := nofun, running := nofun, nested := .nil, known := nofun,
      uncreated := nofun }
  exact
    { inStart := rfl
      inDispatch := rfl
      done := rfl
      fds := fun _ => rfl
      detach := Nat.le_refl _
      pending := rfl
      bound := ⟨Nat.le_refl _, Nat.zero_le _⟩
      fresh := fun _ _ => ⟨rfl, rfl⟩
      resolveCancel := rfl
      attemptCancel := fun _ => rfl
      closed := nofun
      unresolved := fun _ => rfl
      resolving := nofun
      idle := fun _ => ⟨rfl, rfl⟩
      arming := fun hev => absurd rfl hev
      delay := hidle G
      deadline := hidle True
      unarmed := fun _ => rfl
      single := Nat.zero_le _
      once := nofun
      delayPaired := by simpa using hdelay
      deadlinePaired := by simpa using hdeadline
      quiet := nofun
      calm := trivial }

theorem Inv.of_reach {P : CConfig → CAct → Prop} (hP : ∀ c a, P c a → G → FiredNotFailed c a)
    (h : KlConnectOp.init hs = some op) {c : CConfig} (hc : machine.Reach P op c) :
    Inv G (reported c.trace) (Reentrant.hooks c.trace) c.state c.stack :=
  hc.invariant (.init h) (Inv.preserves hP)

/-- Only `on_detach` is counted by neither depth counter. -/
theorem onDetach_of_calm {st : List Frame} (hs : starts st = 0) (hd : dispatches st = 0) :
    ∀ f ∈ st, f = .onDetach := by
  induction st with
  | nil => simp
  | cons g st ih =>
    simp only [starts_cons, dispatches_cons, Nat.add_eq_zero_iff] at hs hd
    intro f hf
    rcases mem_cons.mp hf with rfl | hf
    · cases f <;> simp_all
    · exact ih hs.2 hd.2 f hf

theorem preDones_le (st : List Frame) : preDones st ≤ dispatches st := by
  induction st with
  | nil => exact Nat.le_refl _
  | cons f st ih =>
    rw [preDones_cons, dispatches_cons]
    refine Nat.add_le_add ?_ ih
    cases f <;> simp

theorem wonFds_le (hk : List Frame) : (wonFds hk).length ≤ dones hk := by
  induction hk with
  | nil => exact Nat.le_refl _
  | cons f hk ih =>
    rw [wonFds, filterMap_cons_toList, dones, countP_cons, length_append, Nat.add_comm]
    refine Nat.add_le_add ih ?_
    cases f with
    | onDone result fd error => cases result <;> simp
    | _ => simp

/-- `on_done` fires at most once; every descriptor reported goes to exactly one of
`on_done` and `dispose_fd` (or `co_terminal` is about to pass it to `on_done`), at most
one of them to `on_done`; `pending` counts the active attempts; the resolve and each
attempt are asked to cancel at most once; `on_detach` fires at most once, after
`on_done`, with nothing outstanding and no other hook of the operation on the stack.
In every run in which `arm_delay` reports no failure after its delay has fired. -/
theorem connect_once (hs : KlConnectOpHooks) (op : KlConnectOp) (h : init hs = some op)
    (c : CConfig) (hc : machine.Reach FiredNotFailed op c) :
    dones (Reentrant.hooks c.trace) ≤ 1 ∧
    (reported c.trace).Perm (wonFds (Reentrant.hooks c.trace) ++
      disposedFds (Reentrant.hooks c.trace) ++ carriedFds c.stack) ∧
    (wonFds (Reentrant.hooks c.trace)).length ≤ 1 ∧
    c.state.pending = countActive c.state.attemptActive ∧
    resolveCancels (Reentrant.hooks c.trace) ≤ 1 ∧
    (∀ i, attemptCancels (Reentrant.hooks c.trace) i ≤ 1) ∧
    detaches (Reentrant.hooks c.trace) ≤ 1 ∧
    (c.calling = some .onDetach →
      dones (Reentrant.hooks c.trace) = 1 ∧ c.state.resolveInflight = false ∧
      countActive c.state.attemptActive = 0 ∧ c.state.delay.live = false ∧
      c.state.deadline.live = false ∧ ∀ f ∈ c.stack, f = .onDetach) := by
  have hi := Inv.of_reach (G := True) (fun _ _ hp _ => hp) h hc
  have hdone : dones (Reentrant.hooks c.trace) ≤ 1 :=
    Nat.le_trans (Nat.le_add_right _ _) (hi.done ▸ Bool.toNat_le _)
  refine ⟨hdone, ?_, Nat.le_trans (wonFds_le _) hdone, hi.pending, ?_, ?_, ?_, ?_⟩
  · refine perm_iff_count.mpr fun fd => ?_
    rw [hi.fds fd, count_append, count_append]
  · exact hi.resolveCancel ▸ Bool.toNat_le _
  · exact fun i => hi.attemptCancel i ▸ Bool.toNat_le _
  · exact Nat.le_trans hi.detach (Bool.toNat_le _)
  intro hcall
  obtain ⟨rest, hst⟩ := hc.stack_of_calling hcall
  have hdet : c.state.detached = true := by
    refine Bool.of_not_eq_false fun hd => ?_
    have hnone := hi.detach
    rw [hd] at hnone
    exact absurd hnone (Nat.not_le.mpr (countP_pos_iff.mpr ⟨_, Config.calling_mem hcall, rfl⟩))
  obtain ⟨hterm, hres, hpending, hdelay, hdeadline⟩ := hi.quiet hdet
  have hcalm := hi.calm
  have hpre := hi.done
  rw [hst] at hcalm hpre
  obtain ⟨hstarts, hdisp⟩ := hcalm.1 rfl
  have hzero : preDones rest = 0 := Nat.le_zero.mp (hdisp ▸ preDones_le rest)
  refine ⟨?_, hres, hi.pending ▸ hpending, ?_, ?_, ?_⟩
  · simpa [hzero, hterm] using hpre
  · exact Bool.eq_false_iff.mpr fun hl => by simp [hi.delay.known trivial hl] at hdelay
  · exact Bool.eq_false_iff.mpr fun hl => by simp [hi.deadline.known trivial hl] at hdeadline
  · rw [hst]
    intro f hf
    rcases mem_cons.mp hf with rfl | hf
    · rfl
    · exact onDetach_of_calm hstarts hdisp f hf

/-- An adapter with every hook. -/
def fullHooks : KlConnectOpHooks where
  startResolve := true
  cancelResolve := true
  startAttempt := true
  cancelAttempt := true
  disposeFd := true
  armDelay := true
  cancelDelay := true
  armDeadline := true
  cancelDeadline := true
  onDone := true
  onDetach := true

/-- The second of two attempts wins, and the first fails when it is cancelled. -/
theorem connect_once_race : ∃ c, machine.run FiredNotFailed (Machine.start { hooks := fullHooks })
        [.call .start, .ret {}, .call (.onResolved 2), .ret {}, .ret {}, .ret {}, .call .onDelay,
          .ret {}, .call (.onAttemptConnected 1 7), .ret {}, .ret {},
          .call (.onAttemptFailed 0 5), .ret {}] = some c ∧
      c.calling = some .onDetach ∧ dones (Reentrant.hooks c.trace) = 1 ∧ c.stack = [.onDetach] := by
  refine Machine.exists_run ⟨_, rfl, fun hc => ⟨rfl, ?_, rfl⟩⟩
  exact ((connect_once fullHooks _ rfl _ hc).2.2.2.2.2.2.2 rfl).1

/-- `arm_delay` fires inside its own call, which starts the second address and arms the
delay again, and then reports a failure: the operation forgets the second timer, and
`on_detach` fires while that timer exists. -/
theorem detach_with_timer : ∃ c, machine.run Machine.Any
        (Machine.start { hooks := { fullHooks with armDeadline := false, cancelAttempt := false } })
        [.call .start, .call (.onResolved 3), .ret {}, .call .onDelay, .ret {}, .ret {},
          .ret ⟨-1, 0⟩,
          .ret {}, .ret {}, .call (.onAttemptConnected 0 7), .ret {}, .call (.onAttemptFailed 1 5),
          .call (.onAttemptFailed 2 5)] = some c ∧
      c.calling = some .onDetach ∧ c.state.delay.live = true :=
  ⟨_, rfl, rfl, rfl⟩

end KlConnectOp
