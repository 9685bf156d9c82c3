-- SUMMARY: Whoever was refused with WOULD_BLOCK is called back.
import Keel.Datagram.Accounting

/-!
# Backpressure

A refusal with WOULD_BLOCK marks the queue as full, and the next retirement clears the
mark and owes the owner a call of on_writable. The call is made before the outermost
function returns. Discarding the queue clears the mark without a call: it is part of a
close, after which nothing is accepted.
-/

open Reentrant

namespace KlDgramSend

variable {cfg : Setup} {s₀ : KlDgramSend} {c : SConfig} {G : SConfig → SAct → Prop}

/-- No wake-up is lost. Once the outermost call has returned, whoever was refused with
WOULD_BLOCK and not called back faces a queue with something in it, from which nothing was
retired since. on_drain is called on an empty queue. A refused call leaves the queue as it
was, and one that is refused with WOULD_BLOCK waits. -/
theorem no_lost_wakeup (hbuild : cfg.build = some s₀) (hc : machine.Reach G s₀ c) :
    (c.stack = [] → c.state.onWritable = true → c.state.blocked = true →
      0 < c.state.count ∧ c.state.retired = false) ∧
    (∀ ret, c.calling = some (.drain ret) → c.state.count = 0) ∧
    ∀ x ∈ c.trace, ∀ v, x.out.result = some (.status v) → v ≠ .accepted →
      x.out.state.ring = x.pre.ring ∧ x.out.state.slots = x.pre.slots ∧
      (v = .wouldBlock → x.out.state.blocked = true ∧ x.out.state.retired = false) := by
  have hinv := reach_free hbuild hc
  refine ⟨fun hst hon hblocked => ?_, fun ret hdrain => ?_, fun x hx v hr hv => ?_⟩
  · -- outside of all calls the brackets are closed, so no call of on_writable is owed
    have hdepth := hinv.stacked.depth
    rw [hst] at hdepth
    rcases hinv.kept.wake hon hblocked with hpend | ⟨hfull, hretired⟩
    · have hinside := hinv.kept.inside hpend
      rw [hdepth] at hinside
      cases hinside
    · exact ⟨hinv.kept.full hfull, hretired⟩
  · obtain ⟨x, hx, hhook⟩ := Option.bind_eq_some_iff.mp hdrain
    rw [hc.state_of_last hx]
    exact (hinv.calls x (List.mem_of_getLast? hx) _ hhook).empty ret rfl
  · rcases hinv.refusals x hx _ hr with hgrant | ⟨w, hw, hrefused⟩
    · exact absurd (by simpa [Ret.granted] using hgrant) hv
    · cases hw
      exact ⟨hrefused.ring, hrefused.slots, hrefused.waiting⟩

/-- One slot: the second datagram is refused, and the owner waits. -/
theorem no_lost_wakeup_full :
    ∃ s₀ c, Setup.build { slotCount := 1, outCap := 4, onWritable := true } = some s₀ ∧
      machine.run Machine.Any (Machine.start s₀)
        [.call (.enqueue { peer := .inet 1 }), .call (.enqueue { peer := .inet 2 })] = some c ∧
      c.state.blocked = true ∧ 0 < c.state.count ∧ c.state.retired = false := by
  refine Machine.exists_built ⟨_, _, rfl, rfl, fun hbuild hc => ?_⟩
  exact ⟨rfl, (no_lost_wakeup hbuild hc).1 rfl rfl rfl⟩

/-- After a refusal the queue is empty and on_writable was not called: because the queue was
discarded, or because there is no such callback. -/
theorem refused_without_wakeup :
    (∃ s₀ c, Setup.build { slotCount := 1, outCap := 4, onWritable := true } = some s₀ ∧
      machine.run Machine.Any (Machine.start s₀)
        [.call (.enqueue { peer := .inet 1 }), .call (.enqueue { peer := .inet 2 }),
          .call .setClosing, .call .discardQueued] = some c ∧
      c.trace.map (·.out.result) = [some (.status .accepted), some (.status .wouldBlock),
        some (.code 0), some (.code 0)] ∧
      hooks c.trace = [] ∧ c.stack = [] ∧ c.state.count = 0) ∧
    ∃ s₀ c, Setup.build { slotCount := 1, outCap := 4 } = some s₀ ∧
      machine.run Machine.Any (Machine.start s₀)
        [.call (.enqueue { peer := .inet 1 }), .call (.enqueue { peer := .inet 2 }), .call .flush,
          .ret { r := .done }] = some c ∧
      c.trace.map (·.out.result) = [some (.status .accepted), some (.status .wouldBlock), none,
        some (.code 0)] ∧
      hooks c.trace = [.submit ⟨0, { dest := .inet 1 }⟩ .flush] ∧ c.stack = [] ∧
      c.state.count = 0 :=
  ⟨⟨_, _, rfl, rfl, rfl, rfl, rfl, rfl⟩, _, _, rfl, rfl, rfl, rfl, rfl, rfl⟩

end KlDgramSend
