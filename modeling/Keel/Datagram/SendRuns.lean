-- SUMMARY: Whole runs of the send machine: setup, conditions, invariant.
import Keel.Datagram.SendPreservation

/-!
# Runs of the send machine

The conditions of `Keel.Datagram.Sending` are on one stretch. A run meets them when all
its stretches do, and then the invariant holds in every configuration it reaches.
-/

open Reentrant

namespace KlDgramSend

/-- What the owner of a send machine decides on. -/
structure Setup where
  slotCount : Nat
  outCap : Nat
  byteBudget : Nat := 0
  completion : Bool := false
  caps : KlDgramCaps := {}
  onWritable : Bool := false
  onDrain : Bool := false
  onDrop : Bool := false
  submitGso : Bool := false
deriving DecidableEq, Repr

/-- `kl_dgram_slots_init`, then `kl_dgram_send_init`, then the callbacks. -/
def Setup.build (cfg : Setup) : Option KlDgramSend :=
  (KlDgramSlots.init cfg.slotCount cfg.outCap).bind fun slots =>
    init slots cfg.completion cfg.caps cfg.byteBudget cfg.onWritable cfg.onDrain cfg.onDrop
      cfg.submitGso

/-- The scope once `tr` has been run and the next stretch starts in `s`. -/
def Scope.since (P : Scope) (tr : List SStep) (s : KlDgramSend) : Scope :=
  { P with
    failed := ∃ x ∈ tr, x.out.state.err = true
    cancelled := ∃ x ∈ tr, x.out.state.aborted = true
    shut := False
    drained := False
    calm := fun r t => ∃ v, r = .status v ∧ Refused s v t
    log := fun _ => True }

/-- The invariant of whole runs. -/
structure RunInv (P : Scope) (tr : List SStep) (s : KlDgramSend) (st : List Frame) : Prop where
  kept : Kept (P.since tr s) s.entries s
  stacked : Stacked (P.since tr s) s 0 st
  calls : ∀ x ∈ tr, ∀ f, x.out.hook = some f → CallOk { P with drained := False } x.out.state f
  /-- A call that is refused leaves the queue alone. -/
  refusals : ∀ x ∈ tr, ∀ r, x.out.result = some r → r.granted = true ∨
    ∃ v, r = .status v ∧ Refused x.pre v x.out.state
  /-- What is set once stays set. -/
  latched : tr.Pairwise fun x y => (x.out.state.err = true → y.out.state.err = true) ∧
    (x.out.state.aborted = true → y.out.state.aborted = true)

variable {P : Scope} {tr : List SStep} {s s₀ : KlDgramSend} {st st' : List Frame}

/-- A stretch becomes part of the run. -/
theorem After.extend {o : SOut} {cause : Cause Op Frame Answer} (hrun : RunInv P tr s st')
    (h : After (P.since tr s) st o) : RunInv P (tr ++ [⟨s, cause, o⟩]) o.state (o.stack st) := by
  have hmem : ∀ x ∈ tr ++ [(⟨s, cause, o⟩ : SStep)], x ∈ tr ∨ x = ⟨s, cause, o⟩ := by
    intro x hx
    simpa using hx
  refine ⟨?_, ?_, ?_, ?_, ?_⟩
  · refine { h.kept with failed := ?_, cancelled := ?_ }
    · rintro ⟨x, hx, herr⟩
      rcases hmem x hx with hx | rfl
      · exact h.kept.failed ⟨x, hx, herr⟩
      · exact herr
    · rintro ⟨x, hx, ha⟩
      rcases hmem x hx with hx | rfl
      · exact h.kept.cancelled ⟨x, hx, ha⟩
      · exact ha
  · exact { h.stacked with frames := fun f hf => { h.stacked.frames f hf with } }
  · intro x hx
    rcases hmem x hx with hx | rfl
    · exact hrun.calls x hx
    · exact fun f hf => { h.calls f hf with }
  · intro x hx
    rcases hmem x hx with hx | rfl
    · exact hrun.refusals x hx
    · exact h.result
  · refine List.pairwise_append.mpr ⟨hrun.latched, List.pairwise_singleton _ _, ?_⟩
    intro x hx y hy
    rw [List.mem_singleton.mp hy]
    exact ⟨fun herr => h.kept.failed ⟨x, hx, herr⟩, fun ha => h.kept.cancelled ⟨x, hx, ha⟩⟩

theorem runInv_preserves {onCall : KlDgramSend → Op → Prop}
    {onRet : KlDgramSend → Frame → Answer → Prop} (hcall : ∀ s op, onCall s op → CallMet P s op)
    (hret : ∀ s f a, onRet s f a → RetMet P s f a) :
    Machine.Preserves machine (Machine.Guarded onCall onRet) (RunInv P) where
  enter tr s st op h hp := by
    have hm : CallMet (P.since tr s) s op := { hcall s op hp with }
    exact (enter_after h.kept h.stacked hm (fun v _ h => ⟨v, rfl, h⟩) fun _ _ => trivial).extend h
  resume tr s st f a h hp := by
    have hm : RetMet (P.since tr s) s f a := { hret s f a hp with }
    exact (afterHook_after h.kept h.stacked hm (fun v _ h => ⟨v, rfl, h⟩)
      fun _ _ => trivial).extend h

theorem Setup.build_inv {cfg : Setup} (h : cfg.build = some s₀) (P : Scope) :
    RunInv P [] s₀ [] := by
  obtain ⟨slots, hslots, hinit⟩ := Option.bind_eq_some_iff.mp h
  have hsplit := KlDgramSlots.split_init hslots
  unfold init at hinit
  split at hinit
  · cases hinit
  next hpos =>
    cases hinit
    have hcap : 0 < slots.slotCount := Nat.pos_of_ne_zero hpos
    have hring : RingBuffer.Holds ({ cap := slots.slotCount } : RingBuffer Nat) [] := .empty hcap
    exact
      { kept :=
          { acct := ⟨hring.toList.symm ▸ hring, rfl, hring.toList.symm ▸ hsplit, rfl,
              fun _ => Nat.zero_le _, Nat.zero_le _⟩
            pool := hcap
            full := nofun
            inside := nofun
            wake := nofun
            idle := nofun
            modes := fun _ _ _ he => absurd he List.not_mem_nil
            bound := fun _ => Nat.zero_le _
            books := fun _ => ⟨.start, fun _ he => absurd he List.not_mem_nil, rfl, fun _ hid =>
              absurd hid List.not_mem_nil⟩
            flying := fun _ hf => absurd rfl hf
            groups := fun _ _ => trivial
            abort := nofun
            failed := fun ⟨_, hx, _⟩ => absurd hx List.not_mem_nil
            cancelled := fun ⟨_, hx, _⟩ => absurd hx List.not_mem_nil
            shut := False.elim
            drained := False.elim
            log := trivial }
        stacked := ⟨rfl, fun _ hf => absurd hf List.not_mem_nil, fun _ _ hf => absurd rfl hf,
          trivial⟩
        calls := fun _ hx => absurd hx List.not_mem_nil
        refusals := fun _ hx => absurd hx List.not_mem_nil
        latched := .nil }

/-- The invariant of every run that meets the conditions of its scope. -/
theorem reach_inv {cfg : Setup} {c : SConfig} {onCall : KlDgramSend → Op → Prop}
    {onRet : KlDgramSend → Frame → Answer → Prop} (P : Scope)
    (hcall : ∀ s op, onCall s op → CallMet P s op) (hret : ∀ s f a, onRet s f a → RetMet P s f a)
    (hbuild : cfg.build = some s₀) (hc : machine.Reach (Machine.Guarded onCall onRet) s₀ c) :
    RunInv P c.trace c.state c.stack :=
  hc.invariant (cfg.build_inv hbuild P) (runInv_preserves hcall hret)

end KlDgramSend
