-- SUMMARY: Removing an entry by moving the last one into the gap.
import Mathlib.Data.List.Perm.Basic
import Mathlib.Algebra.Ring.Nat

/-!
# Swap-removal

A table whose order does not matter is kept as a list. An entry is removed by overwriting it
with the last one and shortening the list, so that positions of other entries can change. What
stays is the collection of the entries, which is what the lemmas here speak of.
-/

namespace SwapRemove

variable {α : Type} {l : List α} {i : Nat} {a : α}

/-- Overwrite the entry at `i` with the last one and drop the last place. -/
def swapRemove (l : List α) (i : Nat) : List α :=
  match l.getLast? with
  | none => l
  | some last => (l.set i last).dropLast

/-- The entry at a position, apart from the others. -/
theorem exists_perm_cons (h : l[i]? = some a) :
    ∃ rest, l.Perm (a :: rest) ∧ ∀ b, (l.set i b).Perm (b :: rest) := by
  induction l generalizing i with
  | nil => cases h
  | cons c l ih =>
    cases i with
    | zero =>
      cases h
      exact ⟨l, .refl _, fun b => .refl _⟩
    | succ i =>
      obtain ⟨rest, hperm, hset⟩ := ih h
      refine ⟨c :: rest, ?_, fun b => ?_⟩
      · exact (hperm.cons c).trans (.swap a c rest)
      · exact ((hset b).cons c).trans (.swap b c rest)

/-- What is left is the other entries. -/
theorem swapRemove_perm {rest : List α} (h : l[i]? = some a)
    (hset : ∀ b, (l.set i b).Perm (b :: rest)) : (swapRemove l i).Perm rest := by
  have hi := (List.getElem?_eq_some_iff.mp h).1
  have hne : l ≠ [] := List.ne_nil_of_length_pos (Nat.zero_lt_of_lt hi)
  have hlast : l.getLast? = some (l.getLast hne) := List.getLast?_eq_some_getLast hne
  unfold swapRemove
  rw [hlast]
  -- the table that was overwritten ends in the same entry, which is now there twice
  have hset' := hset (l.getLast hne)
  have hne' : l.set i (l.getLast hne) ≠ [] := by
    rw [← List.length_pos_iff_ne_nil, List.length_set]
    exact Nat.zero_lt_of_lt hi
  have hlast' : (l.set i (l.getLast hne)).getLast hne' = l.getLast hne := by
    simp [List.getLast_eq_getElem, List.getElem_set]
  have hsplit := List.dropLast_append_getLast hne'
  rw [hlast'] at hsplit
  rw [← hsplit] at hset'
  exact List.Perm.cons_inv ((List.perm_append_singleton _ _).symm.trans hset')

end SwapRemove
