-- SUMMARY: Decisions taken on a prefix of a stream that stand for every longer one.
import Mathlib.Data.List.Basic

/-!
# Decisions on prefixes

A decision procedure looks at what has arrived of a stream and answers or waits. It is *settled*
if an answer is never changed by what arrives later. Asked again at every arrival, a settled
procedure gives the answer of the whole stream, however that was cut.
-/

namespace Decision

variable {α δ : Type*}

/-- An answer stands, whatever follows. -/
def Settled (f : List α → Option δ) : Prop := ∀ w more d, f w = some d → f (w ++ more) = some d

/-- Ask at every arrival, until there is an answer. -/
def first (f : List α → Option δ) : List α → List (List α) → Option δ
  | _, [] => none
  | seen, w :: arrivals =>
    match f (seen ++ w) with
    | some d => some d
    | none => first f (seen ++ w) arrivals

theorem Settled.first_eq {f : List α → Option δ} (h : Settled f) {seen : List α}
    (hseen : f seen = none) (arrivals : List (List α)) :
    first f seen arrivals = f (seen ++ arrivals.flatten) := by
  induction arrivals generalizing seen with
  | nil =>
    rw [List.flatten_nil, List.append_nil, hseen]
    rfl
  | cons w arrivals ih =>
    unfold first
    rw [List.flatten_cons, ← List.append_assoc]
    cases hw : f (seen ++ w) with
    | none => exact ih hw
    | some d => exact (h _ _ d hw).symm

/-- Looking at the first `n` symbols only is enough where an answer is there by then. -/
theorem Settled.take {f : List α → Option δ} (h : Settled f) {n : Nat}
    (hby : ∀ w, n ≤ w.length → (f w).isSome = true) (w : List α) : f (w.take n) = f w := by
  cases hw : f (w.take n) with
  | some d =>
    have hfull := h _ (w.drop n) d hw
    rw [List.take_append_drop] at hfull
    exact hfull.symm
  | none =>
    have hshort : w.length < n := by
      by_contra hlong
      have hsome := hby (w.take n) (by rw [List.length_take]; omega)
      rw [hw] at hsome
      exact Bool.false_ne_true hsome
    rw [List.take_of_length_le (Nat.le_of_lt hshort)] at hw
    exact hw.symm

end Decision
