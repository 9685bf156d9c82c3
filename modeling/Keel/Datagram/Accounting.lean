-- SUMMARY: Send queue, pool, byte counter and flight counter agree.
import Keel.Datagram.SendRuns

/-!
# Accounting of the send queue

Ring, pool and byte counter agree in every run. That the datagram in flight is in the
queue needs hooks that keep to the mode of the machine. That no empty ring position is
read needs more: a loop that has submitted datagrams takes them off the queue by
position when its hook returns, so they must still be there.
-/

open Reentrant

namespace KlDgramSend

/-- No condition is met. -/
def Scope.free : Scope where
  contract := False
  steady := False
  fifo := False
  sticky := False
  abort := False
  failed := False
  cancelled := False
  shut := False
  drained := False
  calm := fun _ _ => True
  log := fun _ => True
  contract_of_steady := id
  steady_of_fifo := id
  contract_of_abort := id

theorem CallMet.free (s : KlDgramSend) (op : Op) : CallMet .free s op := ⟨False.elim, False.elim⟩

theorem RetMet.free (s : KlDgramSend) (f : Frame) (a : Answer) : RetMet .free s f a :=
  ⟨False.elim, False.elim, False.elim, False.elim, False.elim⟩

variable {cfg : Setup} {s₀ : KlDgramSend} {c : SConfig} {G : SConfig → SAct → Prop}

/-- The invariant without its conditional parts holds in every run. -/
theorem reach_free (hbuild : cfg.build = some s₀) (hc : machine.Reach G s₀ c) :
    RunInv .free c.trace c.state c.stack := by
  have hany : machine.Reach (Machine.Guarded (fun _ _ => True) fun _ _ _ => True) s₀ c :=
    hc.mono fun c a _ => by
    unfold Machine.Guarded
    split <;> trivial
  exact reach_inv .free (fun s op _ => .free s op) (fun s f a _ => .free s f a) hbuild hany

/-- Hooks keep to the mode, and submitted datagrams stay at the head of the queue until the
answer is in. -/
def Disciplined : SConfig → SAct → Prop :=
  Machine.Guarded PermittedCall fun s f a => s.Permitted f a ∧ s.Undisturbed f a

instance (c : SConfig) (a : SAct) : Decidable (Disciplined c a) :=
  inferInstanceAs (Decidable (Machine.Guarded PermittedCall (fun s f a => s.Permitted f a ∧
    s.Undisturbed f a) c a))

def Scope.disciplined : Scope := { Scope.free with
    contract := True, steady := True
    contract_of_steady := id, steady_of_fifo := False.elim, contract_of_abort := False.elim }

/-- The accounting of the queue, wherever control is in a hook or outside. -/
theorem queue_accounting (hbuild : cfg.build = some s₀) (hc : machine.Reach Disciplined s₀ c) :
    c.state.ring.Holds c.state.ring.toList ∧ c.state.ring.toList.length = c.state.count ∧
    c.state.ring.toList.Nodup ∧
    (∀ i ∈ c.state.ring.toList, i < c.state.slots.slotCount ∧ (c.state.slots.out i).inUse = true) ∧
    c.state.count + c.state.slots.freeCount = c.state.slots.slotCount ∧
    c.state.bytesUsed = (c.state.entries.map (·.len)).sum ∧
    (0 < c.state.byteBudget → c.state.bytesUsed ≤ c.state.byteBudget) ∧
    c.state.inflightN ≤ 1 ∧ c.state.inflightN ≤ c.state.count ∧ Frame.fault ∉ c.stack := by
  have hinv : RunInv .disciplined c.trace c.state c.stack := reach_inv _
    (fun _ _ h => ⟨fun _ => h, False.elim⟩)
    (fun _ _ _ h => ⟨fun _ => h.1, fun _ => h.2, False.elim, False.elim, False.elim⟩) hbuild hc
  have hacct := hinv.kept.acct
  refine ⟨hacct.ring, hacct.ring.count.symm, hacct.split.usedNodup, hacct.split.usedSlot,
    hacct.count_add_free, hacct.bytes, hacct.budget, hacct.single, hinv.kept.bound trivial, ?_⟩
  intro hfault
  have hsound := (hinv.stacked.frames _ hfault).sound trivial
  cases hsound

/-- Two datagrams are handed over as a batch and both are sent, with a third one enqueued
from the hook. -/
theorem queue_accounting_batch :
    ∃ s₀ c, Setup.build { slotCount := 3, outCap := 4, byteBudget := 8 } = some s₀ ∧
      machine.run Disciplined (Machine.start s₀)
        [.call (.enqueue { peer := .inet 1, data := some [1], len := 1 }),
          .call (.enqueue { peer := .inet 2, data := some [2, 3], len := 2 }),
          .call (.flushBatch 4), .call (.enqueue { peer := .inet 3, data := some [4], len := 1 }),
          .ret { br := .sent, sent := 2 }] = some c ∧
      c.state.count = 1 ∧ c.state.count + c.state.slots.freeCount = c.state.slots.slotCount ∧
      c.state.bytesUsed ≤ 8 ∧ Frame.fault ∉ c.stack := by
  refine Machine.exists_built ⟨_, _, rfl, rfl, fun hbuild hc => ?_⟩
  obtain ⟨-, -, -, -, hfree, -, hbytes, -, -, hfault⟩ := queue_accounting hbuild hc
  exact ⟨rfl, hfree, hbytes (by decide), hfault⟩

/-- An abortive close begins while a batch is with the provider. The queue is emptied, and
when the provider reports the batch as sent, the loop retires a head that is not there. -/
theorem discard_in_batch : ∃ s₀ c, Setup.build { slotCount := 1, outCap := 4 } = some s₀ ∧
      machine.run Machine.Any (Machine.start s₀)
        [.call (.enqueue { peer := .inet 1 }), .call (.flushBatch 1), .call .setClosing,
          .call .discardQueued, .ret { br := .sent, sent := 1 }] = some c ∧
      Frame.fault ∈ c.stack :=
  ⟨_, _, rfl, rfl, List.mem_cons_self⟩

end KlDgramSend
