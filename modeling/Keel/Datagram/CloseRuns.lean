-- SUMMARY: Whole runs of the close coordinator.
import Keel.Datagram.Accounting
import Keel.Datagram.Closing

/-!
# Runs of the close coordinator

The flags of the coordinator say which of its hooks were called, so that the number of
calls in a trace can be read off the state.
-/

open Reentrant List

namespace KlDgramClose

/-- The classifier said PENDING in this step. -/
def SaidPending (x : CStep) : Prop := ∃ f a, x.cause = .resume f a ∧ Pended f a

/-- The scope once `tr` has been run. -/
def Scope.since (B : KlDgramSend.Scope) (honest : Prop) (tr : List CStep) : Scope where
  base := B
  honest := honest
  asked := ∃ x ∈ tr, SaidPending x

/-- The calls of one of the hooks. -/
def calls (tr : List CStep) (k : Hook) : Nat := (hooks tr).countP (·.hook = some k)

theorem calls_append (tr : List CStep) (x : CStep) (k : Hook) :
    calls (tr ++ [x]) k = calls tr k + if x.out.hook.bind Frame.hook = some k then 1 else 0 := by
  rw [calls, hooks_append, countP_append]
  cases hx : x.out.hook with
  | none => simp [calls]
  | some f => simp [calls, countP_cons]

/-- The invariant of whole runs. -/
structure RunInv (B : KlDgramSend.Scope) (honest : Prop) (tr : List CStep) (c : KlDgramClose)
    (st : List Frame) : Prop where
  kept : Kept (.since B honest tr) c st
  tally : ∀ k, calls tr k = (c.called st k).toNat
  closes : ∀ x ∈ tr, ∀ res ret, x.out.hook = some (.onClose res ret) →
    x.out.state.busy = 0 ∧ x.out.state.backendRetired = true ∧
    (x.out.state.abandon = false → x.out.state.fullyRetired = true) ∧
      (honest → x.out.state.Faithful res)
  cancelled : (∃ x ∈ tr, x.cause = .enter .cancel) → c.Cancelled
  /-- Nothing is handed to the provider after a cancel. -/
  silent : B.abort → tr.Pairwise fun x y => x.cause = .enter .cancel →
    ∀ g, y.out.hook = some (.send g) → g.provider = false

variable {B : KlDgramSend.Scope} {honest : Prop} {tr : List CStep} {c c₀ : KlDgramClose}
  {st st' : List Frame} {o : COut} {cause : Cause Op Frame Answer} {cfg : Setup}

theorem Kept.mono {P P' : Scope} (h : Kept P c st) (hbase : P'.base = P.base)
    (hhonest : P'.honest = P.honest) (hasked : P.asked → P'.asked) : Kept P' c st := by
  obtain ⟨base, honest, asked⟩ := P
  obtain ⟨base', honest', asked'⟩ := P'
  obtain rfl : base' = base := hbase
  obtain rfl : honest' = honest := hhonest
  have hframe : ∀ f, FrameOk ⟨base', honest', asked⟩ c f →
      FrameOk ⟨base', honest', asked'⟩ c f := by
    intro f hf
    cases f with
    | classify kind q te abandoned ret => exact { (hf : Classifying _ _ _ _ _) with }
    | cancelSend k | cancelRecv k => cases k <;> exact hf
    | _ => exact hf
  exact
    { send := h.send
      run := { h.run with frames := fun f hf => hframe f (h.run.frames f hf) }
      swept := h.swept
      settled := fun hst hc => ⟨(h.settled hst hc).1, fun hf => hasked ((h.settled hst hc).2 hf)⟩ }

/-- A stretch becomes part of the run. -/
theorem After.extend (hrun : RunInv B honest tr c st')
    (h : After (.since B honest (tr ++ [⟨c, cause, o⟩])) c st' st o)
    (hcancel : cause = .enter .cancel → o.state.Cancelled) :
    RunInv B honest (tr ++ [⟨c, cause, o⟩]) o.state (o.stack st) := by
  have hmem : ∀ x ∈ tr ++ [(⟨c, cause, o⟩ : CStep)], x ∈ tr ∨ x = ⟨c, cause, o⟩ := by
    intro x hx
    simpa using hx
  refine ⟨h.kept, fun k => ?_, fun x hx => ?_, ?_, fun hp => ?_⟩
  · rw [calls_append, hrun.tally k]
    exact (h.tally k).symm
  · rcases hmem x hx with hx | rfl
    · exact hrun.closes x hx
    · intro res ret hf
      obtain ⟨hbusy, -, hback, hgate, hres⟩ := (h.calls _ hf).close res ret rfl
      exact ⟨hbusy, hback, hgate, hres⟩
  · rintro ⟨x, hx, hc⟩
    rcases hmem x hx with hx | rfl
    · exact h.cancelled (hrun.cancelled ⟨x, hx, hc⟩)
    · exact hcancel hc
  · refine pairwise_append.mpr ⟨hrun.silent hp, pairwise_singleton _ _, ?_⟩
    intro x hx y hy hc g hg
    rw [mem_singleton.mp hy] at hg
    by_contra hprov
    exact (h.calls _ hg).dropped hp g rfl (by simpa using hprov) (hrun.cancelled ⟨x, hx, hc⟩)

/-- The conditions of a scope on a call, and on the return of a hook. -/
theorem runInv_preserves {onCall : KlDgramClose → Op → Prop}
    {onRet : KlDgramClose → Frame → Answer → Prop}
    (hcall : ∀ c o, onCall c (.send o) → KlDgramSend.CallMet B c.send o.op ∧
      (B.abort → c.abort = true → c.send.aborted = true))
    (hsend : ∀ c g a, onRet c (.send g) a → KlDgramSend.RetMet B c.send g a.send)
    (hhonest : ∀ c f a, onRet c f a → honest → Honest c f a ∧ Unmixed c f) :
    Machine.Preserves machine (Machine.Guarded onCall onRet) (RunInv B honest) where
  enter tr c st op h hp := by
    have hkept : Kept (.since B honest (tr ++ [⟨c, .enter op, machine.enter op c⟩])) c st :=
      h.kept.mono rfl rfl fun ⟨x, hx, hs⟩ => ⟨x, mem_append_left _ hx, hs⟩
    refine (enter_after hkept ⟨?_, ?_⟩).extend h ?_
    · rintro o rfl
      exact (hcall c o hp).1
    · rintro ha o rfl
      exact (hcall c o hp).2 ha
    · rintro ⟨⟩
      exact closeCommon_cancelled hkept
  resume tr c st f a h hp := by
    have hkept : Kept (.since B honest (tr ++ [⟨c, .resume f a, machine.resume f a c⟩])) c
        (f :: st) :=
      h.kept.mono rfl rfl fun ⟨x, hx, hs⟩ => ⟨x, mem_append_left _ hx, hs⟩
    refine (afterHook_after hkept ⟨?_, hhonest c f a hp, ?_⟩).extend h nofun
    · rintro g rfl
      exact hsend c g a hp
    · exact fun hpend => ⟨_, mem_append_right _ mem_cons_self, f, a, rfl, hpend⟩

theorem Setup.build_inv (h : cfg.build = some c₀) (B : KlDgramSend.Scope) (honest : Prop) :
    RunInv B honest [] c₀ [] := by
  obtain ⟨s, hs, hrest⟩ := Option.bind_eq_some_iff.mp h
  obtain ⟨r, hr, rfl⟩ := Option.map_eq_some_iff.mp hrest
  have hsend := KlDgramSend.Setup.build_inv hs B
  refine ⟨⟨⟨?_, ?_⟩, ?_, nofun, fun _ hc => ?_⟩, fun k => ?_, fun x hx => ?_, ?_, fun _ => .nil⟩
  · exact { hsend.kept with failed := False.elim, cancelled := id, shut := id, drained := id }
  · exact { hsend.stacked with frames := fun f hf => absurd hf not_mem_nil }
  · exact
      { busy := rfl, grounded := trivial, detaching := rfl, inside := fun h =>
        absurd h Bool.false_ne_true, notified := by simp
        closing := fun hc => absurd rfl hc, frames := fun f hf => absurd hf not_mem_nil
        abandon := fun h => absurd h Bool.false_ne_true, closed := fun hc => by cases hc }
  · cases hc
  · cases k <;> simp [called, calls, hooks]
  · exact absurd hx not_mem_nil
  · rintro ⟨x, hx, -⟩
    exact absurd hx not_mem_nil

end KlDgramClose
