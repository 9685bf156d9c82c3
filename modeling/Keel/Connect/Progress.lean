-- SUMMARY: A connect operation is over or has something outstanding.
import Keel.Connect.Terminal

/-!
# No stall, and no failure without a reason

`co_start_next` is reached from a resolve, from a failed attempt, from the delay, and
again from inside each hook it calls. What carries the argument through the nesting is
that an operation that is racing has an attempt outstanding at every point where
control is outside its code.
-/

open Reentrant List

namespace KlConnectOp

/-! ## Milestones -/

/-- What a stretch of the run tells about its outcome. -/
inductive Milestone where
  | started
  | resolveFailed
  | noAddress
  | deadlineFired
  | deadlineUnarmed
  | attemptFailed (idx : Nat)
deriving DecidableEq, Repr

/-- The operation was started, the resolve failed or could not be started, it gave no
address, the deadline fired or could not be armed, an attempt failed or could not be
started. -/
def milestone (x : CStep) : Option Milestone :=
  match x.cause with
  | .enter .start => some .started
  | .enter (.onResolveFailed _) => if x.pre.resolveInflight then some .resolveFailed else none
  | .enter (.onResolved n) =>
    if x.pre.resolveInflight && !x.pre.terminal && n ≤ 0 then some .noAddress else none
  | .enter (.onDeadline _) => if x.pre.deadline.armed then some .deadlineFired else none
  | .enter (.onAttemptFailed idx _) =>
    if 0 ≤ idx && x.pre.attemptActive idx.toNat then some (.attemptFailed idx.toNat) else none
  | .resume (.armDeadline _) a =>
    if x.pre.deadline.armed && a.r < 0 then some .deadlineUnarmed else none
  | .resume .startResolve a =>
    if x.pre.resolveInflight && a.r < 0 then some .resolveFailed else none
  | .resume (.startAttempt i) a =>
    if x.pre.attemptActive i && a.r < 0 then some (.attemptFailed i) else none
  | _ => none

def milestones (tr : List CStep) : List Milestone := tr.filterMap milestone

/-- Why an operation with `naddrs` addresses may fail. -/
def Reason (ms : List Milestone) (naddrs : Nat) : Prop :=
  .resolveFailed ∈ ms ∨ .noAddress ∈ ms ∨ .deadlineFired ∈ ms ∨ .deadlineUnarmed ∈ ms ∨
    0 < naddrs ∧ ∀ i < naddrs, .attemptFailed i ∈ ms

theorem Reason.mono {ms ms' : List Milestone} {n : Nat} (hsub : ∀ x ∈ ms, x ∈ ms')
    (h : Reason ms n) : Reason ms' n := by
  rcases h with h | h | h | h | ⟨hn, h⟩
  · exact .inl (hsub _ h)
  · exact .inr (.inl (hsub _ h))
  · exact .inr (.inr (.inl (hsub _ h)))
  · exact .inr (.inr (.inr (.inl (hsub _ h))))
  · exact .inr (.inr (.inr (.inr ⟨hn, fun i hi => hsub _ (h i hi)⟩)))

/-- A failure is reported, or will be after the hook. -/
def Frame.failure : Frame → Bool
  | .cancelDelay .failed _ _ | .cancelDeadline .failed _ _ | .onDone .failed _ _ => true
  | _ => false

def Frame.attempted : Frame → Option Nat
  | .startAttempt idx => some idx
  | _ => none

/-- The addresses attempted so far, in order. -/
def attempted (hk : List Frame) : List Nat := hk.filterMap Frame.attempted

@[simp] theorem attempted_append (hk : List Frame) (f : Frame) :
    attempted (hk ++ [f]) = attempted hk ++ f.attempted.toList := by
  rw [attempted, filterMap_append, filterMap_cons_toList, filterMap_nil, append_nil]
  rfl

/-! ## The invariant -/

/-- The way the operation came, past the milestones `ms`. -/
structure Path (ms : List Milestone) (hk : List Frame) (op : KlConnectOp) (st : List Frame) :
    Prop where
  order : attempted hk = List.range op.nextIdx
  reasons : ∀ f, f ∈ hk ∨ f ∈ st → f.failure = true → op.terminal = true ∧ Reason ms op.naddrs
  gone : op.detached = true → op.hooks.onDetach = true → .onDetach ∈ hk
  begun : .started ∈ ms → op.state ≠ .idle
  opened : op.terminal = false → op.state = .idle ∨ op.state = .resolving ∨ op.state = .connecting

/-- An attempt that is not active has failed. -/
def Failing (ms : List Milestone) (op : KlConnectOp) : Prop :=
  op.terminal = false → ∀ i < op.nextIdx, op.attemptActive i = true ∨ .attemptFailed i ∈ ms

/-- Something is outstanding. -/
structure Race (ms : List Milestone) (op : KlConnectOp) (st : List Frame) : Prop where
  racing : op.state = .connecting → 0 < op.pending ∧ 0 < op.naddrs
  resolving : op.state = .resolving → op.resolveInflight = true ∨ deadlineEvs st ≠ []
  failing : Failing ms op

/-- What `co_finalize` waits for. -/
def Settled (op : KlConnectOp) : Prop :=
  op.terminal = true → op.inStart = 0 → op.inDispatch = 0 → op.resolveInflight = false →
    op.pending = 0 → op.delay.armed = false → op.deadline.armed = false → op.detached = true

structure Live (ms : List Milestone) (hk : List Frame) (op : KlConnectOp) (st : List Frame) : Prop
    extends Path ms hk op st, Race ms op st where
  settled : Settled op

/-- The invariant after a stretch that ends with `o`. -/
def LiveAfter (ms : List Milestone) (hk : List Frame) (st : List Frame) (o : COut) : Prop :=
  Live ms (hk ++ o.hook.toList) o.state (o.stack st)

section

variable {ms : List Milestone} {hk st : List Frame} {op : KlConnectOp} {f : Frame}
  {ms' : List Milestone}

theorem LiveAfter.done {r : Int} (h : Live ms hk op st) : LiveAfter ms hk st (.done op r) := by
  simpa [LiveAfter] using h

theorem reasons_call {Q : Prop} (h : ∀ g, g ∈ hk ∨ g ∈ st → g.failure = true → Q)
    (hf : f.failure = true → Q) : ∀ g, g ∈ hk ++ [f] ∨ g ∈ f :: st → g.failure = true → Q := by
  intro g hg hfail
  rw [mem_append, mem_singleton, mem_cons] at hg
  rcases hg with (hg | rfl) | rfl | hg
  · exact h g (.inl hg) hfail
  · exact hf hfail
  · exact hf hfail
  · exact h g (.inr hg) hfail

/-- A hook that starts no attempt is called. -/
theorem Path.call (h : Path ms hk op st) (ha : f.attempted = none)
    (hf : f.failure = true → op.terminal = true ∧ Reason ms op.naddrs) :
    Path ms (hk ++ [f]) op (f :: st) where
  order := by simpa [ha] using h.order
  reasons := reasons_call h.reasons hf
  gone hd hh := mem_append_left _ (h.gone hd hh)
  __ := h

theorem Path.pop (h : Path ms hk op (f :: st)) : Path ms hk op st :=
  { h with reasons := fun g hg => h.reasons g (hg.imp_right (mem_cons_of_mem _)) }

theorem Path.mono (h : Path ms hk op st) (hsub : ∀ x ∈ ms, x ∈ ms')
    (hs : .started ∈ ms' → op.state ≠ .idle) : Path ms' hk op st :=
  { h with
    reasons := fun g hg hf => (h.reasons g hg hf).imp_right (·.mono hsub)
    begun := hs }

theorem Race.mono (h : Race ms op st) (hsub : ∀ x ∈ ms, x ∈ ms') : Race ms' op st :=
  { h with failing := fun ht i hi => (h.failing ht i hi).imp_right (hsub _) }

theorem Race.pop (h : Race ms op (f :: st)) (hf : f.deadlineEv = none) : Race ms op st := { h with
    resolving := fun hs => by
      have := h.resolving hs
      rwa [deadlineEvs_cons, hf] at this }

theorem Race.push (h : Race ms op st) : Race ms op (f :: st) := { h with
    resolving := fun hs => by
      refine (h.resolving hs).imp_right fun hne => ?_
      rw [deadlineEvs_cons]
      exact append_ne_nil_of_right_ne_nil _ hne }

theorem Race.closed (ht : op.terminal = true) (h : op.state = .done ∨ op.state = .detached) :
    Race ms op st where
  racing hs := by simp [hs] at h
  resolving hs := by simp [hs] at h
  failing hf := by simp [ht] at hf

/-- Control is in a hook that keeps the operation attached. -/
theorem LiveAfter.call (hp : Path ms (hk ++ [f]) op (f :: st)) (hr : Race ms op (f :: st))
    (hn : op.inStart ≠ 0 ∨ op.inDispatch ≠ 0) : LiveAfter ms hk st (.call op f) :=
  { hp, hr with
    settled := fun _ hs hd => by
      rcases hn with hn | hn
      · exact absurd hs hn
      · exact absurd hd hn }

/-! ## Detachment -/

section

variable (hp : Path ms hk op st) (hr : Race ms op st)
include hp hr

theorem Live.finalize : LiveAfter ms hk st op.finalize := by
  have hkeep (hs : Settled op) : LiveAfter ms hk st (.done op 0) :=
    .done { hp, hr with settled := hs }
  unfold KlConnectOp.finalize
  split
  · next hterm => exact hkeep fun ht => by simp [ht] at hterm
  split
  · next hdepth => exact hkeep fun _ hs hd => by simp [hs, hd] at hdepth
  split
  · next hres => exact hkeep fun _ _ _ hr => by simp [hr] at hres
  split
  · next hpend => exact hkeep fun _ _ _ _ hz => absurd hz hpend
  split
  · next harmed => exact hkeep fun _ _ _ _ _ hd hl => by simp [hd, hl] at harmed
  split
  · next hdet => exact hkeep fun _ _ _ _ _ _ _ => hdet
  rename_i hterm _ _ _ _ _
  have hterm : op.terminal = true := by simpa using hterm
  have hover : Race ms op.detach st := .closed hterm (.inr rfl)
  split
  · exact { hover.push with
    order := by simpa [Frame.attempted] using hp.order
    reasons := reasons_call hp.reasons nofun
    gone := fun _ _ => by simp
    begun := nofun
    opened := fun ht => by simp [hterm] at ht
    settled := fun _ _ _ _ _ _ _ => rfl }
  · next hhook =>
    exact .done
      { hp, hover with
        gone := fun _ hh => absurd hh hhook
        begun := nofun
        opened := fun ht => by simp [hterm] at ht
        settled := fun _ _ _ _ _ _ _ => rfl }

/-! ## The terminal -/

variable {inTerminal : Bool}

theorem Live.cancelAttempts {i : Nat}
    (hd : op.inDispatch ≠ 0) : LiveAfter ms hk st (op.cancelAttempts i inTerminal) := by
  unfold KlConnectOp.cancelAttempts
  split
  · next j _ =>
    have hp' : Path ms hk (op.requestAttempt j) st := { hp with }
    have hr' : Race ms (op.requestAttempt j) st := { hr with }
    exact .call (hp'.call rfl nofun) hr'.push (.inr hd)
  · cases inTerminal with
    | true =>
      exact Live.finalize (show Path _ _ (op.leaveDispatch.leaveDispatch) _ from { hp with })
        { hr with }
    | false => exact Live.finalize (show Path _ _ (op.leaveDispatch) _ from { hp with }) { hr with }

theorem Live.requestCancels : LiveAfter ms hk st (op.requestCancels inTerminal) := by
  unfold KlConnectOp.requestCancels
  split
  · have hp' : Path ms hk op.enterDispatch.requestResolve st := { hp with }
    have hr' : Race ms op.enterDispatch.requestResolve st := { hr with }
    exact .call (hp'.call rfl nofun) hr'.push (.inr (Nat.succ_ne_zero _))
  · exact Live.cancelAttempts (show Path _ _ (op.enterDispatch) _ from { hp with }) { hr with }
      (Nat.succ_ne_zero _)

end

section

variable {result : KlConnectResult} {fd error : Int}

section

variable (hp : Path ms hk op st) (hr : Race ms op st) (hd : op.inDispatch ≠ 0)
  (hf : result = .failed → op.terminal = true ∧ Reason ms op.naddrs)
include hp hr hd hf

theorem Live.callDone : LiveAfter ms hk st (.call op (.onDone result fd error)) := by
  refine .call (hp.call rfl fun hfail => hf ?_) hr.push (.inr hd)
  cases result <;> simp_all [Frame.failure]

theorem Live.disarmDeadline : LiveAfter ms hk st (op.disarmDeadline result fd error) := by
  unfold KlConnectOp.disarmDeadline
  split
  · refine .call (hp.call rfl fun hfail => hf ?_) hr.push (.inr hd)
    cases result <;> simp_all [Frame.failure]
  · exact Live.callDone (show Path _ _ (op.setDeadline op.deadline.off) _ from { hp with })
      { hr with } hd hf

end

/-- `co_terminal`: a failure has its reason. -/
theorem Live.coTerminal (hp : Path ms hk op st)
    (hover : op.terminal = true → op.state = .done ∨ op.state = .detached)
    (hf : result = .failed → Reason ms op.naddrs) :
    LiveAfter ms hk st (op.coTerminal result fd error) := by
  unfold KlConnectOp.coTerminal
  split
  · next ht => exact Live.finalize hp (.closed ht (hover ht))
  rename_i ht
  have hp' : Path ms hk (op.settle result fd error) st := { hp with
      reasons := fun g hg hfail => absurd (hp.reasons g hg hfail).1 ht
      begun := nofun
      opened := nofun }
  have hr' : Race ms (op.settle result fd error) st := .closed rfl (.inl rfl)
  have hf' (hres : result = .failed) :
      (op.settle result fd error).terminal = true ∧ Reason ms (op.settle result fd error).naddrs :=
    ⟨rfl, hf hres⟩
  unfold KlConnectOp.disarmDelay
  split
  · refine .call (hp'.call rfl fun hfail => hf' ?_) hr'.push (.inr (Nat.succ_ne_zero _))
    cases result <;> simp_all [Frame.failure]
  · exact Live.disarmDeadline
      (show Path _ _ ((op.settle result fd error).setDelay (op.settle result fd error).delay.off)
        _ from { hp' with }) { hr' with } (Nat.succ_ne_zero _) hf'

end

/-! ## The race -/

variable {G : Prop} {rep : List Int}

/-- No attempt is active when none is pending. -/
theorem Attempts.inactive (h : Attempts hk op) (hz : op.pending = 0) (i : Nat) :
    op.attemptActive i = false := by
  refine Bool.eq_false_iff.mpr fun ha => ?_
  have hpos : 0 < countActive op.attemptActive :=
    countP_pos_iff.mpr ⟨i, mem_range.mpr (h.active_lt ha), ha⟩
  rw [← h.pending, hz] at hpos
  exact Nat.lt_irrefl _ hpos

/-- Every address was attempted and every attempt failed. -/
theorem Reason.exhausted (ha : Attempts hk op) (hfail : Failing ms op) (hterm : op.terminal = false)
    (hpos : 0 < op.naddrs) (hend : ¬ op.nextIdx < op.naddrs) (hzero : op.pending = 0) :
    Reason ms op.naddrs := by
  refine .inr (.inr (.inr (.inr ⟨hpos, fun i hi => ?_⟩)))
  rcases hfail hterm i (Nat.lt_of_lt_of_le hi (Nat.not_lt.mp hend)) with hactive | hfailed
  · simp [ha.inactive hzero i] at hactive
  · exact hfailed

/-- `co_start_next`: another attempt, or every address was attempted and failed, or an
attempt is still outstanding. -/
theorem Live.startNext (hp : Path ms hk op st) (ha : Attempts hk op)
    (hover : op.terminal = true → op.state = .done ∨ op.state = .detached)
    (haddrs : op.state = .connecting → 0 < op.naddrs) (hfail : Failing ms op)
    (hres : op.state = .resolving → op.resolveInflight = true ∨ deadlineEvs st ≠ []) :
    LiveAfter ms hk st op.startNext := by
  unfold KlConnectOp.startNext
  split
  · next hgo =>
    obtain ⟨hstate, hterm, hlt⟩ := hgo
    refine .call ?_ ?_ (.inl (Nat.succ_ne_zero _))
    · exact { hp with
      order := by
        simp [Frame.attempted, hp.order, range_succ]
      reasons := reasons_call hp.reasons nofun
      gone := fun hd hh => mem_append_left _ (hp.gone hd hh) }
    · exact
        { racing := fun _ => ⟨Nat.succ_pos _, haddrs hstate⟩
          resolving := fun hs => by simp [hstate] at hs
          failing := fun ht i hi => by
            by_cases hne : i = op.nextIdx
            · subst hne
              exact .inl (by simp)
            · have hi : i < op.nextIdx := Nat.lt_of_le_of_ne (Nat.le_of_lt_succ hi) hne
              simpa [Function.update_of_ne hne] using hfail ht i hi }
  · next hstop =>
    split
    · next hend =>
      obtain ⟨hstate, hterm, hzero⟩ := hend
      refine Live.coTerminal hp hover fun _ => ?_
      exact .exhausted ha hfail hterm (haddrs hstate) (fun hlt => hstop ⟨hstate, hterm, hlt⟩) hzero
    · next hrace =>
      refine Live.finalize hp ⟨fun hs => ⟨Nat.pos_of_ne_zero fun hz => ?_, haddrs hs⟩, hres, hfail⟩
      cases ht : op.terminal with
      | false => exact hrace ⟨hs, ht, hz⟩
      | true => simpa [hs] using hover ht

theorem Live.attemptStarted (hp : Path ms hk op st) (hr : Race ms op st) :
    LiveAfter ms hk st op.attemptStarted := by
  unfold KlConnectOp.attemptStarted
  split
  · have hp' : Path ms hk (op.setDelay op.delay.mark).enterStart st := { hp with }
    have hr' : Race ms (op.setDelay op.delay.mark).enterStart st := { hr with }
    exact .call (hp'.call rfl nofun) hr'.push (.inl (Nat.succ_ne_zero _))
  · exact Live.finalize hp hr

/-- An attempt is over, and that is among the milestones. -/
theorem Failing.retireAttempt {i : Nat} (h : Failing ms op) (hi : .attemptFailed i ∈ ms) :
    Failing ms (op.retireAttempt i) := by
  intro ht j hj
  by_cases hne : j = i
  · exact .inr (hne ▸ hi)
  · simpa [Function.update_of_ne hne] using h ht j hj

/-! ## Entry points -/

/-- `kl_connect_op_start` from the resolve on. -/
theorem Live.resolve (hp : Path ms hk op st) (hs : op.state = .resolving) (hf : Failing ms op) :
    LiveAfter ms hk st op.resolve := by
  have hp' : Path ms hk op.beginResolve.enterStart st := { hp with }
  refine .call (hp'.call rfl nofun) ⟨fun hc => ?_, fun _ => .inl rfl,
    hf⟩ (.inl (Nat.succ_ne_zero _))
  simp [hs] at hc

/-- From here on the operation is started. -/
theorem Live.start (h : Live ms hk op st) (hsub : ∀ x ∈ ms, x ∈ ms') :
    LiveAfter ms' hk st op.start := by
  have hr := h.toRace.mono hsub
  unfold KlConnectOp.start
  split
  · next hs => exact .done { h.toPath.mono hsub fun _ => hs, hr with settled := h.settled }
  have hp : Path ms' hk op.beginResolving st := { h with
      reasons := fun g hg hf => (h.reasons g hg hf).imp_right (·.mono hsub)
      begun := nofun
      opened := fun _ => .inr (.inl rfl) }
  split
  · have hp' : Path ms' hk (op.beginResolving.setDeadline op.deadline.mark).enterStart st :=
      { hp with }
    refine .call (hp'.call rfl nofun) ⟨nofun, fun _ => .inr ?_,
      hr.failing⟩ (.inl (Nat.succ_ne_zero _))
    simp
  · exact Live.resolve hp rfl hr.failing

theorem Live.onResolved {n : Int} (h : Live ms hk op st) (hi : Inv G rep hk op st)
    (hms : op.resolveInflight = true → op.terminal = false → n ≤ 0 → .noAddress ∈ ms) :
    LiveAfter ms hk st (op.onResolved n) := by
  unfold KlConnectOp.onResolved
  split
  · exact .done h
  rename_i hinfl
  have hinfl : op.resolveInflight = true := by simpa using hinfl
  split
  · next hterm =>
    exact Live.finalize (show Path _ _ (op.retireResolve) _ from { h with })
      (.closed hterm (hi.closed hterm))
  rename_i hterm
  have hterm : op.terminal = false := by simpa using hterm
  have hidx : op.nextIdx = 0 := hi.unresolved (.inr (hi.resolving hinfl hterm))
  have hover (k : Nat) (ht : (op.beginConnecting k).terminal = true) :
      (op.beginConnecting k).state = .done ∨ (op.beginConnecting k).state = .detached := by
    simp [hterm] at ht
  have hp (k : Nat) : Path ms hk (op.beginConnecting k) st := { h with
      order := by simpa [hidx] using h.order
      reasons := fun g hg hf => by simpa [hterm] using (h.reasons g hg hf).1
      begun := nofun
      opened := fun _ => .inr (.inr rfl) }
  split
  · next hzero =>
    refine Live.coTerminal (hp 0) (hover 0) fun _ => .inr (.inl ?_)
    refine hms hinfl hterm ?_
    simp only [clampAddrs, maxAddrs] at hzero
    omega
  · next hpos =>
    refine Live.startNext (hp _) ?_ (hover _) (fun _ => Nat.pos_of_ne_zero hpos)
      (fun _ i hi => absurd hi (Nat.not_lt_zero i)) nofun
    exact { hi with
      bound := ⟨Nat.zero_le _, Nat.min_le_right _ _⟩
      fresh := fun i hle => hi.fresh i (hidx ▸ hle) }

theorem Live.onResolveFailed {error : Int} (h : Live ms hk op st) (hi : Inv G rep hk op st)
    (hms : op.resolveInflight = true → .resolveFailed ∈ ms) :
    LiveAfter ms hk st (op.onResolveFailed error) := by
  unfold KlConnectOp.onResolveFailed
  split
  · exact .done h
  · next hinfl =>
    refine Live.coTerminal (show Path _ _ (op.retireResolve.setError error) _ from { h with })
      hi.closed fun _ => ?_
    exact .inl (hms (by simpa using hinfl))

theorem Live.dispose {fd : Int} (hp : Path ms hk op st) (hr : Race ms op st) :
    LiveAfter ms hk st (op.dispose fd) := by
  have hp' : Path ms hk op.enterDispatch st := { hp with }
  have hr' : Race ms op.enterDispatch st := { hr with }
  exact .call (hp'.call rfl nofun) hr'.push (.inr (Nat.succ_ne_zero _))

section

variable (h : Live ms hk op st)
include h

section

variable (hi : Inv G rep hk op st)
include hi

variable {idx error : Int}

theorem Live.onAttemptConnected {fd : Int} : LiveAfter ms hk st (op.onAttemptConnected idx fd) := by
  unfold KlConnectOp.onAttemptConnected
  split
  · exact Live.dispose h.toPath h.toRace
  split
  · exact Live.dispose h.toPath h.toRace
  split
  · next hterm =>
    exact Live.dispose (show Path _ _ (op.retireAttempt idx.toNat) _ from { h with })
      (.closed hterm (hi.closed hterm))
  · exact Live.coTerminal (show Path _ _ (op.retireAttempt idx.toNat) _ from { h with }) hi.closed
      nofun

theorem Live.onAttemptFailed
    (hms : 0 ≤ idx → op.attemptActive idx.toNat = true → .attemptFailed idx.toNat ∈ ms) :
    LiveAfter ms hk st (op.onAttemptFailed idx error) := by
  unfold KlConnectOp.onAttemptFailed
  split
  · exact .done h
  next hidx =>
  split
  · exact .done h
  rename_i hactive
  have hactive : op.attemptActive idx.toNat = true := by simpa using hactive
  have hgone := (hi.retireAttempt hactive).setError error
  have hp : Path ms hk ((op.retireAttempt idx.toNat).setError error) st := { h with }
  have hfail : Failing ms ((op.retireAttempt idx.toNat).setError error) :=
    h.failing.retireAttempt (hms (by omega) hactive)
  have hpos : 0 < op.naddrs := by
    refine Nat.pos_of_ne_zero fun hz => ?_
    have hle : op.nextIdx ≤ idx.toNat := by
      have := hi.bound.1
      omega
    simp [(hi.fresh _ hle).1] at hactive
  unfold KlConnectOp.attemptFailed
  split
  · next hterm => exact Live.finalize hp (.closed hterm (hgone.closed hterm))
  rename_i hterm
  split
  · exact Live.startNext hp hgone.toAttempts hgone.closed (fun _ => hpos) hfail h.resolving
  next hend =>
  split
  · next hzero =>
    refine Live.coTerminal hp hgone.closed fun _ => ?_
    exact .exhausted hgone.toAttempts hfail (by simpa using hterm) hpos hend hzero
  · next hrace =>
    refine Live.finalize hp ⟨fun _ => ⟨Nat.pos_of_ne_zero hrace, hpos⟩, h.resolving, hfail⟩

theorem Live.onDelay : LiveAfter ms hk st op.onDelay := by
  have hp : Path ms hk (op.setDelay op.delay.consume) st := { h with }
  have hr : Race ms (op.setDelay op.delay.consume) st := { h with }
  unfold KlConnectOp.onDelay
  split
  · next hoff =>
    refine .done { hp, hr with settled := fun ht hs hd hres hz _ hl => ?_ }
    exact h.settled ht hs hd hres hz (by simpa using hoff) hl
  split
  · exact Live.startNext hp hi.consumeDelay.toAttempts hi.closed (fun hs =>
      (h.racing hs).2) h.failing
      h.resolving
  · exact Live.finalize hp hr

theorem Live.onDeadline (hms : op.deadline.armed = true → .deadlineFired ∈ ms) :
    LiveAfter ms hk st (op.onDeadline error) := by
  have hp : Path ms hk (op.setDeadline op.deadline.consume) st := { h with }
  unfold KlConnectOp.onDeadline
  split
  · next hoff =>
    refine .done { hp with
      racing := h.racing, resolving := h.resolving, failing := h.failing
      settled := fun ht hs hd hres hz hl _ => ?_ }
    exact h.settled ht hs hd hres hz hl (by simpa using hoff)
  · next harmed =>
    refine Live.coTerminal hp hi.closed fun _ => .inr (.inr (.inl ?_))
    exact hms (by simpa using harmed)

theorem Live.cancel : LiveAfter ms hk st op.cancel := by
  unfold KlConnectOp.cancel
  split
  · exact .done h
  split
  · exact Live.coTerminal h.toPath hi.closed nofun
  · exact Live.requestCancels h.toPath h.toRace

end

/-! ## Whole runs -/

theorem Live.mono (hsub : ∀ x ∈ ms, x ∈ ms')
    (hs : .started ∈ ms' → .started ∈ ms) : Live ms' hk op st :=
  { h.toPath.mono hsub fun hm => h.begun (hs hm), h.toRace.mono hsub with settled := h.settled }

end

/-- Only `kl_connect_op_start` starts an operation. -/
theorem started_of_append {x : CStep} (hx : milestone x ≠ some .started)
    (h : .started ∈ ms ++ (milestone x).toList) : .started ∈ ms := by
  rcases mem_append.mp h with h | h
  · exact h
  · exact absurd (Option.mem_toList.mp h) hx

variable {out : COut}

theorem milestone_ne_started {o : Op} (ho : o ≠ .start) :
    milestone ⟨op, .enter o, out⟩ ≠ some .started := by
  cases o <;> simp_all [milestone]

theorem milestone_resume_ne_started {a : Answer} :
    milestone ⟨op, .resume f a, out⟩ ≠ some .started := by
  cases f <;> simp [milestone]

/-- An entry point, with the milestone it passes. -/
theorem Live.enter {o : Op} (h : Live ms hk op st) (hi : Inv G rep hk op st) :
    LiveAfter (ms ++ (milestone ⟨op, .enter o, KlConnectOp.enter o op⟩).toList) hk st
      (KlConnectOp.enter o op) := by
  have hsub (x : Milestone) (hx : x ∈ ms) :
      x ∈ ms ++ (milestone ⟨op, .enter o, KlConnectOp.enter o op⟩).toList :=
    mem_append_left _ hx
  have hmono (ho : o ≠ .start) := h.mono hsub (started_of_append (milestone_ne_started ho))
  cases o with
  | start => exact h.start hsub
  | onResolved n =>
    refine (hmono nofun).onResolved hi fun hr ht hn => mem_append_right _ ?_
    simp [milestone, hr, ht, hn]
  | onResolveFailed e =>
    refine (hmono nofun).onResolveFailed hi fun hr => mem_append_right _ ?_
    simp [milestone, hr]
  | onAttemptConnected idx fd => exact (hmono nofun).onAttemptConnected hi
  | onAttemptFailed idx e =>
    refine (hmono nofun).onAttemptFailed hi fun hpos ha => mem_append_right _ ?_
    simp [milestone, hpos, ha]
  | onDelay => exact (hmono nofun).onDelay hi
  | onDeadline e =>
    refine (hmono nofun).onDeadline hi fun ha => mem_append_right _ ?_
    simp [milestone, ha]
  | cancel => exact (hmono nofun).cancel hi

/-- A hook whose frame counts in `in_dispatch` is on the stack. -/
theorem Depth.dispatching (h : Depth op (f :: st)) (hf : f.depth ≠ 0) : op.inDispatch ≠ 0 := by
  have := h.inDispatch
  rw [dispatches_cons] at this
  omega

/-- The code after a hook, with the milestone it passes. -/
theorem Live.afterHook {a : Answer} (h : Live ms hk op (f :: st)) (hi : Inv G rep hk op (f :: st)) :
    LiveAfter (ms ++ (milestone ⟨op, .resume f a, KlConnectOp.afterHook f a op⟩).toList) hk st
      (KlConnectOp.afterHook f a op) := by
  have hmono : Live (ms ++ (milestone ⟨op, .resume f a, KlConnectOp.afterHook f a op⟩).toList) hk op
      (f :: st) :=
    h.mono (fun x hx => mem_append_left _ hx) (started_of_append milestone_resume_ne_started)
  have hpath := hmono.toPath.pop
  have hreason {result : KlConnectResult} {fd error : Int}
      (hf : f = .cancelDelay result fd error ∨ f = .cancelDeadline result fd error)
      (hr : result = .failed) := hmono.reasons f (.inr mem_cons_self)
        (by rcases hf with rfl | rfl <;> simp [Frame.failure, hr])
  cases f with
  | armDeadline ev =>
    have hfail := hmono.failing
    simp only [KlConnectOp.afterHook, KlConnectOp.deadlineReturned]
    split
    · next hneg =>
      refine Live.coTerminal { hpath with } hi.closed fun _ => .inr (.inr (.inr (.inl ?_)))
      refine mem_append_right _ ?_
      simp only [milestone, hneg, if_true, Option.toList_some, mem_singleton]
    split
    · next hterm => exact Live.finalize { hpath with } (.closed hterm (hi.closed hterm))
    · next hterm =>
      obtain ⟨hs, -⟩ := hi.arming (by simp) (by simpa using hterm)
      exact Live.resolve { hpath with } hs hfail
  | startResolve =>
    simp only [KlConnectOp.afterHook, KlConnectOp.resolveReturned]
    split
    · next hneg =>
      refine Live.coTerminal { hpath with } hi.closed fun _ => .inl ?_
      refine mem_append_right _ ?_
      simp only [milestone, hneg, if_true, Option.toList_some, mem_singleton]
    · exact Live.finalize { hpath with } { hmono.toRace.pop rfl with }
  | startAttempt idx =>
    have hpop := hi.leaveStart rfl ⟨rfl, rfl⟩
    simp only [KlConnectOp.afterHook, KlConnectOp.attemptReturned]
    split
    · exact Live.attemptStarted { hpath with } { hmono.toRace.pop rfl with }
    rename_i hactive
    have hactive : op.attemptActive idx = true := by simpa using hactive
    split
    · next hneg =>
      have hset : Milestone.attemptFailed idx ∈ ms ++ (milestone ⟨op, .resume (.startAttempt idx) a,
          KlConnectOp.afterHook (.startAttempt idx) a op⟩).toList := by
        refine mem_append_right _ ?_
        simp [milestone, hactive, hneg]
      have hrace := hmono.toRace.pop rfl
      refine Live.startNext { hpath with } ((hpop.retireAttempt hactive).setError a.err).toAttempts
        hi.closed
        (fun hs => (h.racing hs).2) ?_ hrace.resolving
      exact Failing.retireAttempt (show Failing _ (op.leaveStart) from hmono.failing) hset
    · exact Live.attemptStarted { hpath with } { hmono.toRace.pop rfl with }
  | armDelay ev =>
    have hrace := hmono.toRace.pop rfl
    simp only [KlConnectOp.afterHook, KlConnectOp.delayReturned]
    split
    · exact Live.startNext { hpath with } { hi.toAttempts with } hi.closed
        (fun hs => (h.racing hs).2) hmono.failing hrace.resolving
    · exact Live.finalize { hpath with } { hrace with }
  | cancelDelay result fd error =>
    exact Live.disarmDeadline (show Path _ _ (op.setDelay op.delay.consume) _ from { hpath with })
      { hmono.toRace.pop rfl with } (hi.toDepth.dispatching (by simp)) (hreason (.inl rfl))
  | cancelDeadline result fd error =>
    exact Live.callDone (show Path _ _ (op.setDeadline op.deadline.consume) _ from { hpath with })
      { hmono.toRace.pop rfl with } (hi.toDepth.dispatching (by simp)) (hreason (.inr rfl))
  | onDone result fd error =>
    exact Live.requestCancels hpath (hmono.toRace.pop rfl)
  | cancelResolve inTerminal =>
    exact Live.cancelAttempts hpath (hmono.toRace.pop rfl)
      (hi.toDepth.dispatching (by simp))
  | cancelAttempt idx inTerminal =>
    exact Live.cancelAttempts hpath (hmono.toRace.pop rfl)
      (hi.toDepth.dispatching (by simp))
  | disposeFd fd =>
    exact Live.finalize (show Path _ _ (op.leaveDispatch) _ from { hpath with })
      { hmono.toRace.pop rfl with }
  | onDetach =>
    exact .done { hpath, hmono.toRace.pop rfl with settled := h.settled }

end

theorem Live.preserves (G : Prop) (P : CConfig → CAct → Prop)
    (hP : ∀ c a, P c a → G → FiredNotFailed c a) :
    machine.Preserves P fun tr op st =>
      Inv G (reported tr) (Reentrant.hooks tr) op st ∧
        Live (milestones tr) (Reentrant.hooks tr) op st := by
  refine (Inv.preserves hP).strengthen ?_ ?_
  · intro tr op st o hi h _
    rw [hooks_append, milestones, filterMap_append, filterMap_cons_toList, filterMap_nil,
      append_nil]
    exact h.enter hi
  · intro tr op st f a hi h _
    rw [hooks_append, milestones, filterMap_append, filterMap_cons_toList, filterMap_nil,
      append_nil]
    exact h.afterHook hi

theorem Live.init {hs : KlConnectOpHooks} {op : KlConnectOp} (h : KlConnectOp.init hs = some op) :
    Live [] [] op [] := by
  obtain rfl : op = { hooks := hs } := by
    unfold KlConnectOp.init at h
    repeat' split at h
    all_goals simp_all
  exact
    { order := rfl
      reasons := by simp
      gone := nofun
      begun := nofun
      opened := fun _ => .inl rfl
      racing := nofun
      resolving := nofun
      failing := fun _ i hi => absurd hi (Nat.not_lt_zero i)
      settled := nofun }

/-- Whenever the outermost call on a started operation has returned, a resolve or an
attempt is outstanding unless `on_done` has fired, and `on_detach` has fired once it has
and nothing is outstanding any more. At all times the addresses were attempted in list
order, each at most once, and a failure was reported only for a reason: the resolve
failed or gave no address, the deadline fired or could not be armed, or every address
was attempted and failed. -/
theorem connect_progress (hs : KlConnectOpHooks) (op : KlConnectOp)
    (h : KlConnectOp.init hs = some op) (c : CConfig) (hc : machine.Reach Machine.Any op c) :
    (.started ∈ milestones c.trace → c.stack = [] → (dones (Reentrant.hooks c.trace) = 0 →
        c.state.resolveInflight = true ∨ 0 < countActive c.state.attemptActive) ∧
      (0 < dones (Reentrant.hooks c.trace) → c.state.resolveInflight = false →
        countActive c.state.attemptActive = 0 → c.state.delay.live = false →
        c.state.deadline.live = false →
        c.state.detached = true ∧
          (c.state.hooks.onDetach = true → .onDetach ∈ Reentrant.hooks c.trace))) ∧
    attempted (Reentrant.hooks c.trace) = List.range c.state.nextIdx ∧
    (∀ fd error, .onDone .failed fd error ∈ Reentrant.hooks c.trace →
      Reason (milestones c.trace) c.state.naddrs) := by
  obtain ⟨hi, hl⟩ := hc.invariant
    (I := fun tr op st => Inv False (reported tr) (Reentrant.hooks tr) op st ∧
      Live (milestones tr) (Reentrant.hooks tr) op st)
    ⟨.init h, .init h⟩ (Live.preserves False _ fun _ _ _ hG => hG.elim)
  refine ⟨fun hstart hst => ?_, hl.order, fun fd error hf => (hl.reasons _ (.inl hf) rfl).2⟩
  have hdone := hi.done
  have hin := hi.inStart
  have hdisp := hi.inDispatch
  have hdelay := hi.delay.tracked
  have hdeadline := hi.deadline.tracked
  have hres := hl.resolving
  rw [hst] at hdone hin hdisp hdelay hdeadline hres
  have hdone : dones (Reentrant.hooks c.trace) = c.state.terminal.toNat := hdone
  refine ⟨fun hz => ?_, fun hpos hr ha hd hdl => ?_⟩
  · have hterm : c.state.terminal = false := by
      cases ht : c.state.terminal with
      | false => rfl
      | true => simp [ht, hz] at hdone
    rcases hl.opened hterm with hidle | hs | hs
    · exact absurd hidle (hl.begun hstart)
    · exact .inl ((hres hs).resolve_right fun hne => hne rfl)
    · exact .inr (hi.pending ▸ (hl.racing hs).1)
  have hterm : c.state.terminal = true := by
    cases ht : c.state.terminal with
    | true => rfl
    | false => simp [ht, hdone] at hpos
  have hoff (t : KlConnectTimer) (ht : t.armed = true → t.live = true ∨ t.events ∈ [])
      (hlive : t.live = false) : t.armed = false := by
    refine Bool.eq_false_iff.mpr fun ha => ?_
    simpa [hlive] using ht ha
  have hdet := hl.settled hterm hin hdisp hr (hi.pending.trans ha) (hoff _ hdelay hd)
    (hoff _ hdeadline hdl)
  exact ⟨hdet, hl.gone hdet⟩

/-- The only address is attempted and refuses. -/
theorem connect_progress_refused :
    ∃ c, machine.run Machine.Any (Machine.start { hooks := fullHooks })
        [.call .start, .ret {}, .ret {}, .call (.onResolved 1), .ret {},
          .call (.onAttemptFailed 0 111), .ret {}, .ret {}, .ret {}] = some c ∧
      .started ∈ milestones c.trace ∧ c.stack = [] ∧
      .onDone .failed invalidSocket 111 ∈ Reentrant.hooks c.trace ∧
      Reason (milestones c.trace) c.state.naddrs ∧ c.state.detached = true := by
  have hrun : machine.run Machine.Any (Machine.start { hooks := fullHooks })
      [.call .start, .ret {}, .ret {}, .call (.onResolved 1), .ret {},
        .call (.onAttemptFailed 0 111), .ret {}, .ret {}, .ret {}] = some _ := rfl
  obtain ⟨hout, -, hreason⟩ := connect_progress fullHooks _ rfl _ (Machine.Reach.run .start hrun)
  refine ⟨_, hrun, by decide, rfl, by decide, hreason invalidSocket 111 (by decide), ?_⟩
  exact ((hout (by decide) rfl).2 (by decide) rfl (by decide) rfl rfl).1

end KlConnectOp
