-- SUMMARY: Every accepted datagram meets one fate, and datagrams go out in order.
import Keel.Datagram.Accounting
import Keel.Datagram.Acceptance

/-!
# First in, first out

The condition on a run has three parts: the two of the accounting, and one that keeps
datagrams in turn. A datagram that is sent directly must find the queue as empty as it was
before the provider was called, the rest of a group that is dropped must still be at the
head after on_drop, and no send in flight may fail that did not come from a batch: it is
taken off the queue, and neither sent nor counted as dropped.
-/

open Reentrant

namespace KlDgramSend

variable {cfg : Setup} {s₀ : KlDgramSend} {c : SConfig}

/-- Disciplined, and nothing overtakes a datagram that was submitted. -/
def InOrder : SConfig → SAct → Prop :=
  Machine.Guarded (fun s op => s.PermittedCall op ∧ s.InTurnCall op)
    fun s f a => s.Permitted f a ∧ s.Undisturbed f a ∧ s.InTurn f a

instance (c : SConfig) (a : SAct) : Decidable (InOrder c a) :=
  inferInstanceAs (Decidable (Machine.Guarded (fun s op => s.PermittedCall op ∧ s.InTurnCall op)
    (fun s f a => s.Permitted f a ∧ s.Undisturbed f a ∧ s.InTurn f a) c a))

def Scope.inOrder : Scope := { Scope.disciplined with
    fifo := True
    contract_of_steady := id, steady_of_fifo := id, contract_of_abort := False.elim }

/-- Every accepted datagram has exactly one fate: it was handed to the provider, it was
dropped and counted after the provider refused it, it was discarded by a close, or it is
queued. Datagrams are handed over in the order in which the calls of the run accepted them,
and at every call of the provider each is what was accepted. -/
theorem send_fifo (hbuild : cfg.build = some s₀) (hc : machine.Reach InOrder s₀ c) :
    (c.state.handed ++ c.state.droppedIds ++ c.state.discarded ++ c.state.entries.map (·.id)).Perm
      (List.range c.state.accepted.length) ∧
    (c.state.handed ++ c.state.entries.map (·.id)).Pairwise (· < ·) ∧
    c.state.dropped = c.state.droppedIds.length ∧
    (∀ id ∈ c.state.droppedIds, id ∈ c.state.refused) ∧
    (∀ e ∈ c.state.entries, c.state.accepted[e.id]? = some e.desc) ∧
    (∀ f, c.calling = some f → ∀ x ∈ f.items, c.state.accepted[x.id]? = some x.desc) ∧
    c.state.accepted = c.trace.flatMap admitted := by
  obtain ⟨hinv, hrecord⟩ : RunInv .inOrder c.trace c.state c.stack ∧ _ := reach_accepted
    (fun _ _ h => ⟨fun _ => h.1, fun _ => h.2⟩)
    (fun _ _ _ h => ⟨fun _ => h.1, fun _ => h.2.1, fun _ => h.2.2, False.elim, False.elim⟩)
      hbuild hc
  have hbooks := hinv.kept.books trivial
  refine ⟨hbooks.balance.fates, hbooks.balance.order, hbooks.counted, hbooks.blamed, hbooks.content,
    ?_, hrecord⟩
  intro f hf
  obtain ⟨x, hx, hhook⟩ := Option.bind_eq_some_iff.mp hf
  rw [hc.state_of_last hx]
  exact (hinv.calls x (List.mem_of_getLast? hx) f hhook).own trivial

/-- A group goes out as a whole, the next datagram is refused and dropped, and the last one
waits. -/
theorem send_fifo_group :
    ∃ s₀ c, Setup.build { slotCount := 4, outCap := 4, submitGso := true } = some s₀ ∧
      machine.run InOrder (Machine.start s₀)
        [.call (.enqueueGso { buf := [1, 2, 3], total := 3, seg := 2, nseg := 2, peer := .inet 1 }),
          .call (.enqueue { peer := .inet 2, data := some [4], len := 1 }),
          .call (.enqueue { peer := .inet 3 }), .call .flush, .ret { r := .done },
          .ret { r := .dropped }] = some c ∧
      c.calling = some (.submit ⟨3, { dest := .inet 3 }⟩ .flush) ∧
      c.state.handed = [0, 1] ∧ c.state.droppedIds = [2] ∧ 2 ∈ c.state.refused ∧
      c.state.accepted[3]? = some { dest := .inet 3 } ∧
      c.state.accepted = c.trace.flatMap admitted := by
  refine Machine.exists_built ⟨_, _, rfl, rfl, fun hbuild hc => ?_⟩
  obtain ⟨-, -, -, hblamed, -, hown, hrecord⟩ := send_fifo hbuild hc
  exact ⟨rfl, rfl, rfl, hblamed 2 List.mem_cons_self, hown _ rfl _ List.mem_cons_self, hrecord⟩

/-- While a batch of two is with the provider, its hook sends a third datagram. The nested
pump sends the first one again. When the batch is reported as sent, the loop retires the
two datagrams that are now at the head: the first was handed over twice, and the third
never. -/
theorem send_in_batch : ∃ s₀ c, Setup.build { slotCount := 3, outCap := 4 } = some s₀ ∧
      machine.run Machine.Any (Machine.start s₀)
        [.call (.enqueue { peer := .inet 1 }), .call (.enqueue { peer := .inet 2 }),
          .call (.flushBatch 2), .call (.send { peer := .inet 3 }), .ret { r := .done },
          .ret { r := .wouldblock }, .ret { br := .sent, sent := 2 }] = some c ∧
      c.stack = [] ∧ c.state.accepted.length = 3 ∧ c.state.handed = [0, 0, 1] ∧
      c.state.droppedIds = [] ∧ c.state.discarded = [] ∧ c.state.entries = [] :=
  ⟨_, _, rfl, rfl, rfl, rfl, rfl, rfl, rfl, rfl⟩

end KlDgramSend
