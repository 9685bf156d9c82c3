-- SUMMARY: An abortive close drops the send queue, and no close loses a datagram.
import Keel.Datagram.CloseRuns
import Keel.Datagram.Fifo

/-!
# Abortive close

A cancel discards what is queued and spares the datagram that is in flight. A datagram
counts as in flight while its submit hook runs, so a cancel from inside that hook spares
it too, and the answer of the hook may put it back on the queue. The condition of a run
is that this does not happen, and that nobody calls the send machine while a cancel is
still stopping the receive side.
-/

open Reentrant

namespace KlDgramSend

/-- Hooks keep to the mode, and a discarded queue stays discarded. -/
def Scope.aborting : Scope := { Scope.free with
    contract := True
    abort := True
    contract_of_steady := fun _ => trivial
    contract_of_abort := fun _ => trivial }

end KlDgramSend

namespace KlDgramClose

variable {cfg : Setup} {c₀ : KlDgramClose} {c : CConfig}

/-- The send machine is called as its mode allows, and not between a cancel and the discard
of the queue. -/
def CalledInTurn (c : KlDgramClose) : Op → Prop
  | .send o => c.send.PermittedCall o.op ∧ (c.abort = true → c.send.aborted = true)
  | _ => True

/-- The hooks of the send machine answer as its mode allows, and a submission that was under
way when the queue was discarded does not end with its datagram back on the queue. -/
def FinishedInTurn (c : KlDgramClose) : Frame → Answer → Prop
  | .send g, a => c.send.Permitted g a.send ∧ c.send.Finished g a.send
  | _, _ => True

instance (c : KlDgramClose) (op : Op) : Decidable (CalledInTurn c op) := by
  unfold CalledInTurn
  split <;> exact inferInstance

instance (c : KlDgramClose) (f : Frame) (a : Answer) : Decidable (FinishedInTurn c f a) := by
  unfold FinishedInTurn
  split <;> exact inferInstance

def Sweeping : CConfig → CAct → Prop := Machine.Guarded CalledInTurn FinishedInTurn

instance (c : CConfig) (a : CAct) : Decidable (Sweeping c a) :=
  inferInstanceAs (Decidable (Machine.Guarded CalledInTurn FinishedInTurn c a))

/-- After a cancel, whenever no frame is active, at most one datagram is queued and it is in
flight; without one the transport is closed; and a close that is not over waits for an
operation or for the classifier. Nothing is handed to the provider after the cancel. -/
theorem abort_drops_queue (hbuild : cfg.build = some c₀) (hc : machine.Reach Sweeping c₀ c) :
    ((∃ x ∈ c.trace, x.cause = .enter .cancel) → c.stack = [] →
      (c.state.send.count ≤ c.state.send.inflightN ∧ c.state.send.inflightN ≤ 1) ∧
      (c.state.send.inflightN = 0 → c.state.backendRetired = true) ∧
      (c.state.state = .closed ∨ c.state.send.inflightN = 1 ∨ c.state.recv.recvInflight = true ∨
        ∃ x ∈ c.trace, SaidPending x)) ∧
    c.trace.Pairwise fun x y => x.cause = .enter .cancel →
      ∀ g, y.out.hook = some (.send g) → g.provider = false := by
  have hinv : RunInv .aborting False c.trace c.state c.stack :=
    hc.invariant (cfg.build_inv hbuild _ _) (runInv_preserves
      (fun c o h => ⟨⟨fun _ => h.1, False.elim⟩, fun _ => h.2⟩)
      (fun c g a h => ⟨fun _ => h.1, False.elim, False.elim, False.elim, fun _ => h.2⟩)
      fun _ _ _ _ => False.elim)
  refine ⟨fun hcancel hstack => ?_, hinv.silent trivial⟩
  obtain ⟨hstate, hqueue⟩ := hinv.cancelled hcancel
  have hsingle : c.state.send.inflightN ≤ 1 := hinv.kept.send.kept.acct.single
  have hcount : c.state.send.count ≤ c.state.send.inflightN := by
    rcases hqueue with ha | hd
    · rcases hinv.kept.swept trivial ha with hs | hw
      · exact (hinv.kept.send.kept.abort trivial hs).2
      · rw [hstack] at hw
        exact False.elim hw
    · rw [hd.2.1]
      exact Nat.zero_le _
  have hdrained : c.state.send.inflightN = 0 → c.state.sendDrained = true := by
    intro hf
    simp only [sendDrained, Bool.and_eq_true, beq_iff_eq]
    omega
  refine ⟨⟨hcount, hsingle⟩, fun hf => ?_, ?_⟩
  · cases hcs : c.state.state with
    | opened => exact absurd hcs hstate
    | closing => exact (hinv.kept.settled hstack hcs).1 (hdrained hf)
    | closed => exact (hinv.kept.run.closed hcs).1
  cases hcs : c.state.state with
  | opened => exact absurd hcs hstate
  | closed => exact .inl rfl
  | closing =>
    refine .inr ?_
    by_cases hf : c.state.send.inflightN = 0
    · refine .inr ?_
      cases hr : c.state.recv.recvInflight with
      | true => exact .inl rfl
      | false =>
        refine .inr ((hinv.kept.settled hstack hcs).2 ?_)
        simp [fullyRetired, hr, hdrained hf]
    · exact .inl (by omega)

/-- Two datagrams are queued on a completion machine, and the handle is cancelled while the
first one is in flight. -/
theorem abort_drops_queue_inflight :
    ∃ c₀ c, Setup.build { send := { slotCount := 2, outCap := 4, completion := true },
                          completion := true }
        = some c₀ ∧
      machine.run Sweeping (Machine.start c₀)
        [.call (.send (.send { peer := .inet 1 })), .ret { send := { r := .inflight } },
          .call (.send (.send { peer := .inet 2 })), .call .cancel] = some c ∧
      c.state.send.count ≤ c.state.send.inflightN := by
  refine Machine.exists_built ⟨_, _, rfl, rfl, fun hbuild hc => ?_⟩
  exact ((abort_drops_queue hbuild hc).1 ⟨_, List.mem_of_getLast? rfl, rfl⟩ rfl).1.1

/-- The handle is cancelled from inside the submit hook, which then says that the socket is not
writable. The datagram stays queued, and the close waits for the socket. -/
theorem cancelled_head_requeued :
    ∃ c₀ c, Setup.build { send := { slotCount := 1, outCap := 4 } } = some c₀ ∧
      machine.run Machine.Any (Machine.start c₀)
        [.call (.send (.send { peer := .inet 1 })), .ret { send := { r := .wouldblock } },
          .call .cancel, .ret { send := { r := .wouldblock } }] = some c ∧
      (∃ x ∈ c.trace, x.cause = .enter .cancel) ∧ c.stack = [] ∧ c.state.send.count = 1 ∧
      c.state.send.inflightN = 0 ∧ c.state.state = .closing ∧ c.state.backendRetired = false :=
  ⟨_, _, rfl, rfl, ⟨_, List.mem_cons_of_mem _ (List.mem_cons_of_mem _ List.mem_cons_self), rfl⟩,
    rfl, rfl, rfl, rfl, rfl⟩

/-! ## The queue at the end -/

/-- The condition of `KlDgramSend.InOrder`, on the calls of the send machine and the answers it
gets. -/
def InOrder : CConfig → CAct → Prop :=
  Machine.Guarded
  (fun c op => match op with
    | .send o => c.send.PermittedCall o.op ∧ c.send.InTurnCall o.op
    | _ => True)
  fun c f a => match f with
    | .send g => c.send.Permitted g a.send ∧ c.send.Undisturbed g a.send ∧ c.send.InTurn g a.send
    | _ => True

instance (c : CConfig) (a : CAct) : Decidable (InOrder c a) := by
  refine @Machine.instDecidableGuarded _ _ _ _ _ _ _ (fun c op => ?_) (fun c f a => ?_) c a
  all_goals split <;> exact inferInstance

/-- Under the coordinator too every accepted datagram has one fate, and datagrams are handed over in
the order of acceptance. A close that was not abandoned ends with none of them in the queue. -/
theorem close_settles_datagrams (hbuild : cfg.build = some c₀) (hc : machine.Reach InOrder c₀ c) :
    let s := c.state.send
    (s.handed ++ s.droppedIds ++ s.discarded ++ s.entries.map (·.id)).Perm
      (List.range s.accepted.length) ∧
    s.handed.Pairwise (· < ·) ∧ s.dropped = s.droppedIds.length ∧
    ∀ res ret, c.calling = some (.onClose res ret) → c.state.abandon = false → s.entries = [] := by
  have hinv : RunInv .inOrder False c.trace c.state c.stack :=
    hc.invariant (cfg.build_inv hbuild _ _) (runInv_preserves
      (fun _ _ h => ⟨⟨fun _ => h.1, fun _ => h.2⟩, False.elim⟩)
      (fun _ _ _ h => ⟨fun _ => h.1, fun _ => h.2.1, fun _ => h.2.2, False.elim, False.elim⟩)
        fun _ _ _ _ => False.elim)
  have hbooks := hinv.kept.send.kept.books trivial
  refine ⟨hbooks.balance.fates, (List.pairwise_append.mp hbooks.balance.order).1, hbooks.counted,
    fun res ret hcall ha => ?_⟩
  obtain ⟨x, hx, hhook⟩ := Option.bind_eq_some_iff.mp hcall
  have hretired := (hinv.closes x (List.mem_of_getLast? hx) res ret hhook).2.2.1
  rw [← hc.state_of_last hx] at hretired
  have hempty : c.state.send.count = 0 :=
    beq_iff_eq.mp (Bool.and_elim_right (Bool.and_elim_right (hretired ha)))
  rwa [hinv.kept.send.kept.acct.count_eq, List.length_eq_zero_iff] at hempty

/-- Of four datagrams the first is sent and the second refused. Then closing begins, the third is
sent, and a cancel discards the last one. -/
theorem close_settles_datagrams_cancelled :
    ∃ c₀ c, Setup.build { send := { slotCount := 4, outCap := 4 }, onClose := true } = some c₀ ∧
      machine.Reach InOrder c₀ c ∧ c.state.send.handed = [0, 2] ∧ c.state.send.droppedIds = [1] ∧
      c.state.send.discarded = [3] ∧ c.state.send.dropped = 1 ∧ c.state.send.entries = [] := by
  have hrun : ((Setup.build { send := { slotCount := 4, outCap := 4 }, onClose := true }).bind
      fun c₀ => (machine.run InOrder (Machine.start c₀)
        [.call (.send (.enqueue { peer := .inet 1 })), .call (.send (.enqueue { peer := .inet 2 })),
          .call (.send (.enqueue { peer := .inet 3 })),
            .call (.send (.enqueue { peer := .inet 4 })),
          .call (.send .flush), .ret { send := { r := .done } }, .ret { send := { r := .dropped } },
          .ret { send := { r := .wouldblock } }, .call .beginClose, .call (.send .flush),
          .ret { send := { r := .done } }, .ret { send := { r := .wouldblock } },
          .call .cancel]).map fun c => (c.state.send.handed, c.state.send.droppedIds,
            c.state.send.discarded, c.calling, c.state.abandon)) =
      some ([0, 2], [1], [3], some (.onClose .detached (.close 0)), false) := by decide +kernel
  obtain ⟨c₀, hbuild, hrun⟩ := Option.bind_eq_some_iff.mp hrun
  obtain ⟨c, hc, hseen⟩ := Option.map_eq_some_iff.mp hrun
  simp only [Prod.mk.injEq] at hseen
  obtain ⟨hhanded, hdropped, hdiscarded, hcall, habandon⟩ := hseen
  have hreach : machine.Reach InOrder c₀ c := .run .start hc
  obtain ⟨-, -, hcounted, hempty⟩ := close_settles_datagrams hbuild hreach
  exact ⟨c₀, c, hbuild, hreach, hhanded, hdropped, hdiscarded, by rw [hcounted, hdropped]; rfl,
    hempty _ _ hcall habandon⟩

end KlDgramClose
