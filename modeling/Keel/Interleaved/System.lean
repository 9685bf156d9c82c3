-- SUMMARY: Systems that take one step at a time, and the invariant rule.
import Mathlib.Data.List.Basic

/-!
# Step systems

A system of several threads as one state and a set of acts, each an atomic step. A step that is not
possible in a state is `none`. Every interleaving is a run.
-/

namespace Interleaved

/-- States `σ` and acts `α`. -/
structure System (σ α : Type) where
  step : σ → α → Option σ

namespace System

variable {σ α : Type} {S : System σ α} {s s' s₀ : σ}

inductive Reach (S : System σ α) (s₀ : σ) : σ → Prop where
  | start : Reach S s₀ s₀
  | step {s s' : σ} {a : α} : Reach S s₀ s → S.step s a = some s' → Reach S s₀ s'

/-- The invariant rule. -/
theorem Reach.invariant {I : σ → Prop} (hs : S.Reach s₀ s) (h₀ : I s₀)
    (hI : ∀ s a s', I s → S.step s a = some s' → I s') : I s := by
  induction hs with
  | start => exact h₀
  | step _ hstep ih => exact hI _ _ _ ih hstep

/-- The state after a list of acts, if all of them are possible. -/
def run (S : System σ α) (s : σ) : List α → Option σ
  | [] => some s
  | a :: as => (S.step s a).bind fun s' => S.run s' as

theorem Reach.run (hs : S.Reach s₀ s) {as : List α} (hrun : S.run s as = some s') :
    S.Reach s₀ s' := by
  induction as generalizing s with
  | nil => exact Option.some.inj hrun ▸ hs
  | cons a as ih =>
    obtain ⟨s₁, hstep, hrun⟩ := Option.bind_eq_some_iff.mp hrun
    exact ih (.step hs hstep) hrun

end System

end Interleaved
