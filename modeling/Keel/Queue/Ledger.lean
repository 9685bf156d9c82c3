-- SUMMARY: Books of a first-in first-out queue: one fate for each item, in order.
import Mathlib.Data.List.Perm.Basic
import Mathlib.Data.List.Range

/-!
# The books of a queue

Items are numbered in the order in which they are accepted. An item leaves the queue
when it is handed on, dropped, or discarded. The books balance when each number below
the count of accepted items is in exactly one of the four places, and when the items
handed on, followed by those still queued, are in order.
-/

open List

structure FifoBooks (n : Nat) (handed dropped discarded queued : List Nat) : Prop where
  fates : (handed ++ dropped ++ discarded ++ queued).Perm (List.range n)
  order : (handed ++ queued).Pairwise (· < ·)

namespace FifoBooks

variable {n i : Nat} {handed dropped discarded queued front : List Nat}

theorem start : FifoBooks 0 [] [] [] [] := ⟨.refl _, .nil⟩

section

variable (h : FifoBooks n handed dropped discarded queued)
include h

theorem lt_of_mem (hi : i ∈ handed ++ queued) : i < n := by
  rw [← mem_range, ← h.fates.mem_iff]
  simp only [mem_append] at hi ⊢
  tauto

/-- A new item is queued. -/
theorem accept : FifoBooks (n + 1) handed dropped discarded (queued ++ [n]) where
  fates := by
    rw [range_succ, ← append_assoc]
    exact h.fates.append_right [n]
  order := by
    rw [← append_assoc, pairwise_append]
    exact ⟨h.order, by simp, fun a ha b hb => by
      rw [mem_singleton.mp hb]
      exact h.lt_of_mem ha⟩

/-- New items are queued. -/
theorem acceptAll (k : Nat) :
    FifoBooks (n + k) handed dropped discarded (queued ++ List.range' n k) := by
  induction k with
  | zero => simpa using h
  | succ k ih =>
    rw [range'_1_concat, ← append_assoc]
    exact ih.accept

end

/-- The oldest items are handed on. -/
theorem hand (h : FifoBooks n handed dropped discarded (front ++ queued)) :
    FifoBooks n (handed ++ front) dropped discarded queued where
  fates := by
    refine List.Perm.trans ?_ h.fates
    simp only [append_assoc]
    refine .append_left handed ?_
    calc (front ++ (dropped ++ (discarded ++ queued))).Perm
          ((dropped ++ (discarded ++ queued)) ++ front) := perm_append_comm
      _ = dropped ++ (discarded ++ (queued ++ front)) := by simp only [append_assoc]
      _ |>.Perm (dropped ++ (discarded ++ (front ++ queued))) :=
        .append_left _ (.append_left _ perm_append_comm)
  order := by
    rw [append_assoc]
    exact h.order

/-- The oldest item is dropped. -/
theorem drop (h : FifoBooks n handed dropped discarded (i :: queued)) :
    FifoBooks n handed (dropped ++ [i]) discarded queued where
  fates := by
    refine List.Perm.trans ?_ h.fates
    simp only [append_assoc]
    refine .append_left handed (.append_left dropped ?_)
    show (i :: (discarded ++ queued)).Perm (discarded ++ i :: queued)
    exact perm_middle.symm
  order := h.order.sublist (List.Sublist.append_left (sublist_cons_self i queued) handed)

/-- The newest item is discarded. -/
theorem discard (h : FifoBooks n handed dropped discarded (queued ++ [i])) :
    FifoBooks n handed dropped (discarded ++ [i]) queued where
  fates := by
    refine List.Perm.trans ?_ h.fates
    simp only [append_assoc]
    exact .append_left handed (.append_left dropped (.append_left discarded perm_append_comm))
  order := h.order.sublist (List.Sublist.append_left (sublist_append_left queued [i]) handed)

/-- The newest items are discarded, the last one first. -/
theorem discardAll {back : List Nat} (h : FifoBooks n handed dropped discarded (queued ++ back)) :
    FifoBooks n handed dropped (discarded ++ back.reverse) queued := by
  induction back using reverseRecOn generalizing discarded with
  | nil => simpa using h
  | append_singleton back i ih =>
    rw [← append_assoc] at h
    simpa using ih h.discard

end FifoBooks
