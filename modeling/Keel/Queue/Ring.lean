-- SUMMARY: Ring buffers of fixed capacity, as lists.
import Mathlib.Logic.Function.Basic
import Mathlib.Data.List.Basic
import Mathlib.Data.Nat.ModEq

/-!
# Ring buffers

A ring keeps the position of its oldest element and the number of its elements.
Elements enter behind the newest one and leave at either end. A cell that an element
has left is cleared, so that reading past the end is noticed.
-/

open List

structure RingBuffer (α : Type) where
  cap : Nat
  head : Nat := 0
  count : Nat := 0
  cell : Nat → Option α := fun _ => none

namespace RingBuffer

variable {α : Type} (r : RingBuffer α)

/-- The cell `off` positions after the oldest element. -/
def get (off : Nat) : Option α := r.cell ((r.head + off) % r.cap)

/-- Write behind the newest element. -/
def push (a : α) : RingBuffer α := { r with
    cell := Function.update r.cell ((r.head + r.count) % r.cap) (some a), count := r.count + 1 }

/-- Remove the oldest element. -/
def popHead : RingBuffer α := { r with
    cell := Function.update r.cell r.head none
    head := (r.head + 1) % r.cap, count := r.count - 1 }

/-- Remove the newest element. -/
def popTail : RingBuffer α := { r with
    cell := Function.update r.cell ((r.head + r.count - 1) % r.cap) none, count := r.count - 1 }

/-- The elements, oldest first. -/
def toList : List α := (List.range r.count).filterMap r.get

/-- The ring holds exactly the elements of `l`, oldest first, and every other cell is
clear. -/
structure Holds (r : RingBuffer α) (l : List α) : Prop where
  head : r.head < r.cap
  count : r.count = l.length
  bound : l.length ≤ r.cap
  read : ∀ off < r.cap, r.get off = l[off]?

variable {r : RingBuffer α} {l : List α} {a : α}

theorem Holds.empty {cap : Nat} (h : 0 < cap) : Holds ({ cap := cap } : RingBuffer α) [] :=
  ⟨h, rfl, Nat.zero_le _, fun _ _ => rfl⟩

theorem Holds.toList (h : Holds r l) : r.toList = l := by
  have hread : ∀ n ≤ l.length, (range n).filterMap r.get = l.take n := by
    intro n
    induction n with
    | zero => simp
    | succ n ih =>
      intro hn
      have hlt : n < l.length := by omega
      have hb := h.bound
      rw [range_succ, filterMap_append, ih (by omega), take_add_one]
      simp [h.read n (by omega), hlt]
  rw [RingBuffer.toList, h.count, hread _ (Nat.le_refl _), take_length]

/-- Different offsets below the capacity are different cells. -/
theorem index_ne (head : Nat) {cap i j : Nat} (hi : i < cap) (hj : j < cap) (hne : i ≠ j) :
    (head + i) % cap ≠ (head + j) % cap := by
  intro heq
  have hmod : i % cap = j % cap := Nat.ModEq.add_left_cancel' head heq
  rw [Nat.mod_eq_of_lt hi, Nat.mod_eq_of_lt hj] at hmod
  exact hne hmod

theorem getElem?_concat_of_ne {off : Nat} (h : off ≠ l.length) : (l ++ [a])[off]? = l[off]? := by
  rcases Nat.lt_or_gt_of_ne h with hlt | hgt
  · exact getElem?_append_left hlt
  · rw [getElem?_eq_none (by rw [length_append]; exact hgt), getElem?_eq_none (Nat.le_of_lt hgt)]

theorem Holds.push (h : Holds r l) (hroom : l.length < r.cap) : Holds (r.push a) (l ++ [a]) where
  head := h.head
  count := by simp [RingBuffer.push, h.count]
  bound := by
    rw [length_append, length_singleton]
    exact hroom
  read off hoff := by
    change off < r.cap at hoff
    show Function.update r.cell ((r.head + r.count) % r.cap) (some a) ((r.head + off) % r.cap) = _
    rw [h.count]
    by_cases heq : off = l.length
    · subst heq
      simp
    · rw [Function.update_of_ne (index_ne r.head hoff hroom heq), getElem?_concat_of_ne heq]
      exact h.read off hoff

theorem Holds.popHead (h : Holds r (a :: l)) : Holds r.popHead l where
  head := Nat.mod_lt _ (Nat.lt_of_le_of_lt (Nat.zero_le _) h.head)
  count := by simp [RingBuffer.popHead, h.count]
  bound := Nat.le_of_succ_le h.bound
  read off hoff := by
    change off < r.cap at hoff
    have hb := h.bound
    have hidx : ((r.head + 1) % r.cap + off) % r.cap = (r.head + (off + 1)) % r.cap := by
      rw [Nat.mod_add_mod, Nat.add_assoc, Nat.add_comm 1 off]
    show Function.update r.cell r.head none (((r.head + 1) % r.cap + off) % r.cap) = _
    rw [hidx]
    rcases Nat.lt_or_ge (off + 1) r.cap with hlt | hge
    · have hne := index_ne r.head hlt (Nat.lt_of_le_of_lt (Nat.zero_le _) hlt)
        (Nat.succ_ne_zero off)
      rw [show (r.head + 0) % r.cap = r.head from Nat.mod_eq_of_lt h.head] at hne
      rw [Function.update_of_ne hne]
      exact (h.read (off + 1) hlt).trans getElem?_cons_succ
    · -- The last offset is the cell that was just cleared.
      have hlast : (r.head + (off + 1)) % r.cap = r.head := by
        rw [show off + 1 = r.cap by omega, Nat.add_mod_right, Nat.mod_eq_of_lt h.head]
      rw [hlast, Function.update_self, getElem?_eq_none]
      simp only [length_cons] at hb
      omega

theorem Holds.popTail (h : Holds r (l ++ [a])) : Holds r.popTail l where
  head := h.head
  count := by simp [RingBuffer.popTail, h.count]
  bound := by
    have := h.bound
    simp only [length_append, length_singleton] at this
    exact Nat.le_of_succ_le this
  read off hoff := by
    change off < r.cap at hoff
    have hb := h.bound
    have hc := h.count
    simp only [length_append, length_singleton] at hb hc
    show Function.update r.cell ((r.head + r.count - 1) % r.cap) none ((r.head + off) % r.cap) = _
    rw [hc, show r.head + (l.length + 1) - 1 = r.head + l.length by omega]
    by_cases heq : off = l.length
    · subst heq
      simp
    · rw [Function.update_of_ne (index_ne r.head hoff hb heq)]
      exact (h.read off hoff).trans (getElem?_concat_of_ne heq)

/-- The oldest element. -/
theorem Holds.get_zero (h : Holds r l) : r.get 0 = l.head? := by
  rw [h.read 0 (Nat.lt_of_le_of_lt (Nat.zero_le _) h.head), head?_eq_getElem?]

/-- The newest element. -/
theorem Holds.get_last (h : Holds r (l ++ [a])) : r.get (r.count - 1) = some a := by
  have hb := h.bound
  have hc := h.count
  simp only [length_append, length_singleton] at hb hc
  rw [h.read _ (by omega), hc]
  simp

/-- The oldest `n` elements, read one by one. -/
theorem Holds.mapM_get (h : Holds r l) {n : Nat} (hn : n ≤ l.length) :
    (List.range n).mapM r.get = some (l.take n) := by
  induction n with
  | zero => rfl
  | succ n ih =>
    have hb := h.bound
    rw [range_succ, mapM_append, ih (by omega), take_add_one]
    simp [h.read n (by omega), getElem?_eq_getElem (show n < l.length by omega)]

end RingBuffer
