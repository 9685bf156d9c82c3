-- SUMMARY: After the sticky error nothing is submitted and every send fails.
import Keel.Datagram.Accounting

/-!
# The sticky error

The error is checked when the pump is entered and in every round of the batch loop, but
not in the later rounds of the pump. The condition of a run is that the pump has nothing
left to submit when the error was set while one of its hooks was running.
-/

open Reentrant

namespace KlDgramSend

variable {cfg : Setup} {s₀ : KlDgramSend} {c : SConfig}

/-- No loop goes on once the error is set. -/
def Halts : SConfig → SAct → Prop := Machine.Guarded (fun _ _ => True) Halting

instance (c : SConfig) (a : SAct) : Decidable (Halts c a) :=
  inferInstanceAs (Decidable (Machine.Guarded (fun _ _ => True) Halting c a))

def Scope.halting : Scope := { Scope.free with sticky := True }

variable {s : KlDgramSend}

theorem send_of_err (h : s.err = true) (m : KlDatagramMessage) :
    machine.enter (.send m) s = .done (s.setDirectDropped false) (.status .error) := by
  have hv : s.validate m = .error := by simp [validate, h]
  simp [machine, enter, send, hv]

theorem enqueue_of_err (h : s.err = true) (m : KlDatagramMessage) :
    machine.enter (.enqueue m) s = .done s (.status .error) := by
  have hv : s.validate m = .error := by simp [validate, h]
  simp [machine, enter, enqueue, hv]

theorem enqueueGso_of_err (h : s.err = true) (g : GsoRequest) :
    machine.enter (.enqueueGso g) s = .done s (.status .error) := by
  have hv : s.admitGso g = (.error, s) := by simp [admitGso, h]
  simp [machine, enter, enqueueGso, hv]

/-- When a datagram is handed to the provider, the error was never set before. Once it is
set, every send, single, batched or grouped, returns ERROR. -/
theorem sticky_error (hbuild : cfg.build = some s₀) (hc : machine.Reach Halts s₀ c) :
    (∀ f, c.calling = some f → f.provider = true → ∀ x ∈ c.trace, x.out.state.err = false) ∧
    ((∃ x ∈ c.trace, x.out.state.err = true) →
      (∀ m, (machine.enter (.send m) c.state).result = some (.status .error)) ∧
      (∀ m, (machine.enter (.enqueue m) c.state).result = some (.status .error)) ∧
      ∀ g, (machine.enter (.enqueueGso g) c.state).result = some (.status .error)) := by
  have hinv : RunInv .halting c.trace c.state c.stack := reach_inv _
    (fun _ _ _ => ⟨False.elim, False.elim⟩)
    (fun _ _ _ h => ⟨False.elim, False.elim, False.elim, fun _ => h, False.elim⟩) hbuild hc
  have hlatch : (∃ x ∈ c.trace, x.out.state.err = true) → c.state.err = true := hinv.kept.failed
  refine ⟨fun f hf hprov x hx => ?_, fun hset => ⟨fun m => ?_, fun m => ?_, fun g => ?_⟩⟩
  · by_contra herr
    obtain ⟨y, hy, hhook⟩ := Option.bind_eq_some_iff.mp hf
    have hset := hlatch ⟨x, hx, by simpa using herr⟩
    rw [hc.state_of_last hy,
      (hinv.calls y (List.mem_of_getLast? hy) f hhook).sticky trivial hprov] at hset
    cases hset
  · rw [send_of_err (hlatch hset)]
    rfl
  · rw [enqueue_of_err (hlatch hset)]
    rfl
  · rw [enqueueGso_of_err (hlatch hset)]
    rfl

/-- A direct send fails; the next one is refused. -/
theorem sticky_error_direct : ∃ s₀ c, Setup.build { slotCount := 1, outCap := 4 } = some s₀ ∧
      machine.run Halts (Machine.start s₀)
        [.call (.send { peer := .inet 1 }), .ret { r := .error }] = some c ∧
      (machine.enter (.send { peer := .inet 2 }) c.state).result = some (.status .error) := by
  refine Machine.exists_built ⟨_, _, rfl, rfl, fun hbuild hc => ?_⟩
  exact ((sticky_error hbuild hc).2 ⟨_, List.mem_cons_of_mem _ List.mem_cons_self, rfl⟩).1 _

/-- On a completion machine a datagram fails from inside the submit hook while another one is
queued. The completion sets the error, and the pump goes on to submit the other one. -/
theorem submit_after_error :
    ∃ s₀ c, Setup.build { slotCount := 2, outCap := 4, completion := true } = some s₀ ∧
      machine.run Machine.Any (Machine.start s₀)
        [.call (.send { peer := .inet 1 }), .call (.send { peer := .inet 2 }),
          .call (.onComplete .failed), .ret { r := .inflight }] = some c ∧
      c.calling = some (.submit ⟨1, { dest := .inet 2 }⟩ .send) ∧ c.state.err = true :=
  ⟨_, _, rfl, rfl, rfl, rfl⟩

end KlDgramSend
