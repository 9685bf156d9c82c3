-- SUMMARY: The close of a datagram handle ends once, with nothing outstanding.
import Keel.Datagram.CloseRuns

/-!
# The close lifecycle

An abandoned close takes PENDING for an answer and ends as DETACHED. The classifier is
asked about the receive first, and about the send only if the receive is not pending, so
an operation that is quarantined goes unnoticed while the other one is pending.
-/

open Reentrant

namespace KlDgramClose

variable {cfg : Setup} {c₀ : KlDgramClose} {c : CConfig}

instance (c : KlDgramClose) (f : Frame) (a : Answer) : Decidable (Honest c f a) := by
  unfold Honest
  split <;> exact inferInstance

instance (c : KlDgramClose) (f : Frame) : Decidable (Unmixed c f) := by
  unfold Unmixed
  split <;> exact inferInstance

/-- The classifier says what the backend knows. -/
def Truthful : CConfig → CAct → Prop := Machine.Guarded (fun _ _ => True) Honest

/-- No abandoned close asks while one operation is quarantined and the other one pending. -/
def Honoured : CConfig → CAct → Prop :=
  Machine.Guarded (fun _ _ => True) fun c f a => Honest c f a ∧ Unmixed c f

instance (c : CConfig) (a : CAct) : Decidable (Truthful c a) :=
  inferInstanceAs (Decidable (Machine.Guarded (fun _ _ => True) Honest c a))

instance (c : CConfig) (a : CAct) : Decidable (Honoured c a) :=
  inferInstanceAs (Decidable (Machine.Guarded (fun _ _ => True) (fun c f a => Honest c f a ∧
    Unmixed c f) c a))

/-- The close callback, the backend hook and each cancel hook are called at most once. When
the close callback is called, no other frame is active, nothing is outstanding unless the
close was abandoned, the transport was closed, and the result is QUARANTINED exactly if
some operation is quarantined and CLOSE_ERROR only if all of them are retired. -/
theorem close_lifecycle (hbuild : cfg.build = some c₀) (hc : machine.Reach Honoured c₀ c) :
    (∀ k, calls c.trace k ≤ 1) ∧
    ∀ res ret, c.calling = some (.onClose res ret) →
      c.state.busy = 0 ∧ c.stack = [.onClose res ret] ∧
      (c.state.abandon = false → c.state.recv.recvInflight = false ∧ c.state.send.inflightN = 0 ∧
        c.state.send.count = 0) ∧
      (c.state.backendClose = true → calls c.trace .backend = 1) ∧
      (res = .quarantined ↔ ∃ kind, c.state.opClass kind = .quarantined) ∧
      (res = .closeError → ∀ kind, c.state.opClass kind = .retired) := by
  have hinv : RunInv .free True c.trace c.state c.stack :=
    hc.invariant (cfg.build_inv hbuild _ _) (runInv_preserves
      (fun c o _ => ⟨.free c.send o.op, False.elim⟩) (fun c g a _ => .free c.send g a.send)
      fun _ _ _ h _ => h)
  refine ⟨fun k => ?_, fun res ret hcall => ?_⟩
  · rw [hinv.tally k]
    exact Bool.toNat_le _
  obtain ⟨x, hx, hhook⟩ := Option.bind_eq_some_iff.mp hcall
  obtain ⟨hbusy, hback, hgate, hres⟩ := hinv.closes x (List.mem_of_getLast? hx) res ret hhook
  rw [← hc.state_of_last hx] at hbusy hback hgate hres
  obtain ⟨rest, hstack⟩ := hc.stack_of_calling hcall
  have hrest : rest = [] := by
    have hground := hinv.kept.run.grounded
    rw [hstack] at hground
    exact hground.1 rfl
  rw [hrest] at hstack
  refine ⟨hbusy, hstack, fun ha => ?_, fun hon => ?_, (hres trivial).quarantined,
    (hres trivial).closeError⟩
  · simpa [fullyRetired, sendDrained] using hgate ha
  · rw [hinv.tally, hstack]
    simp [called, hon, hback, Frame.isRetireRecv]

/-- A receive is outstanding when the handle is closed; it is cancelled, then the transport
is closed, and the receive ends from inside that hook. The backend could not confirm it. -/
theorem close_lifecycle_quarantined : ∃ c₀ c, Setup.build {
        send := { slotCount := 1, outCap := 4 }
        completion := true, cancelRecv := true, backendClose := true, retire := true,
          onClose := true } = some c₀ ∧
      machine.run Honoured (Machine.start c₀)
        [.call (.recv .start), .ret {}, .call .beginClose, .ret {},
          .call (.recv (.onComplete {} 0 false)),
          .call (.classify .recv .quarantined), .call (.classify .send .retired), .ret {},
          .ret { retire := .quarantined }, .ret { retire := .retired }] = some c ∧
      c.state.busy = 0 ∧ calls c.trace .backend = 1 ∧ ∃ kind, c.state.opClass kind =
        .quarantined := by
  obtain ⟨c₀, c, hbuild, hrun, hcall, hon⟩ : ∃ c₀ c, Setup.build {
          send := { slotCount := 1, outCap := 4 }
          completion := true, cancelRecv := true, backendClose := true, retire := true,
            onClose := true } = some c₀ ∧
        machine.run Honoured (Machine.start c₀)
          [.call (.recv .start), .ret {}, .call .beginClose, .ret {},
            .call (.recv (.onComplete {} 0 false)),
            .call (.classify .recv .quarantined), .call (.classify .send .retired), .ret {},
            .ret { retire := .quarantined }, .ret { retire := .retired }] = some c ∧
        c.calling = some (.onClose .quarantined (.close 0)) ∧ c.state.backendClose = true :=
    ⟨_, _, rfl, rfl, rfl, rfl⟩
  obtain ⟨hbusy, -, -, hback, hres, -⟩ := (close_lifecycle hbuild (.run .start hrun)).2 _ _ hcall
  exact ⟨c₀, c, hbuild, hrun, hbusy, hback hon, hres.mp rfl⟩

/-- A receive and a send are outstanding when the owner abandons the handle, and the send is
quarantined. The classifier says PENDING for the receive, and the close ends as DETACHED. -/
theorem quarantine_overlooked : ∃ c₀ c, Setup.build {
        send := { slotCount := 1, outCap := 4, completion := true }
        completion := true, retire := true, onClose := true } = some c₀ ∧
      machine.run Truthful (Machine.start c₀)
        [.call (.recv .start), .ret {}, .call (.send (.send { peer := .inet 1 })),
          .ret { send := { r := .inflight } }, .call (.classify .send .quarantined), .call .abandon,
          .ret { retire := .pending }] = some c ∧
      c.calling = some (.onClose .detached (.close 0)) ∧ c.state.opClass .send = .quarantined :=
  ⟨_, _, rfl, rfl, rfl, rfl⟩

end KlDgramClose
