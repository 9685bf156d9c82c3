-- SUMMARY: Cyclic arrays with a read and a write position, as lists.
import Keel.Queue.Ring

/-!
# Cyclic arrays

An array with a position to read from, a position to write to and a count. Cells are not cleared:
what was read stays in its cell until it is written over.
-/

structure Cyclic (α : Type) where
  cap : Nat
  head : Nat
  tail : Nat
  count : Nat
  cell : Nat → Option α

namespace Cyclic

variable {α : Type}

def empty (cap : Nat) : Cyclic α := { cap, head := 0, tail := 0, count := 0, cell := fun _ => none }

/-- Write at the tail. -/
def push (q : Cyclic α) (a : α) : Cyclic α :=
  { q with cell := Function.update q.cell q.tail (some a), tail := (q.tail + 1) % q.cap,
           count := q.count + 1 }

/-- Read at the head. -/
def pop (q : Cyclic α) : Option α × Cyclic α :=
  (q.cell q.head, { q with head := (q.head + 1) % q.cap, count := q.count - 1 })

/-- The array holds `l`, oldest first, and nothing of it was written over. -/
structure Holds (q : Cyclic α) (l : List α) : Prop where
  head : q.head < q.cap
  count : q.count = l.length
  bound : l.length ≤ q.cap
  tail : q.tail = (q.head + q.count) % q.cap
  read : ∀ off < l.length, q.cell ((q.head + off) % q.cap) = l[off]?

variable {q : Cyclic α} {l : List α} {a : α}

theorem Holds.empty {cap : Nat} (h : 0 < cap) : (Cyclic.empty cap : Cyclic α).Holds [] :=
  ⟨h, rfl, Nat.zero_le _, (Nat.mod_eq_of_lt h).symm, fun _ hoff => absurd hoff (Nat.not_lt_zero _)⟩

theorem Holds.push (h : q.Holds l) (hroom : l.length < q.cap) : (q.push a).Holds (l ++ [a]) where
  head := h.head
  count := by
    rw [List.length_append, ← h.count]
    rfl
  bound := by
    rw [List.length_append]
    exact hroom
  tail := by
    show (q.tail + 1) % q.cap = (q.head + (q.count + 1)) % q.cap
    rw [h.tail, Nat.mod_add_mod, Nat.add_assoc]
  read off hoff := by
    rw [List.length_append, List.length_singleton] at hoff
    show Function.update q.cell q.tail (some a) ((q.head + off) % q.cap) = _
    rw [h.tail, h.count]
    rcases Nat.lt_succ_iff_lt_or_eq.mp hoff with hlt | rfl
    · have hne := RingBuffer.index_ne q.head (Nat.lt_trans hlt hroom) hroom (Nat.ne_of_lt hlt)
      rw [Function.update_of_ne hne, h.read off hlt, List.getElem?_append_left hlt]
    · rw [Function.update_self, List.getElem?_concat_length]

theorem Holds.pop (h : q.Holds (a :: l)) : q.pop.1 = some a ∧ q.pop.2.Holds l := by
  have hread := h.read 0 (Nat.succ_pos _)
  rw [Nat.add_zero, Nat.mod_eq_of_lt h.head] at hread
  refine ⟨hread, Nat.mod_lt _ (Nat.zero_lt_of_lt h.head), ?_, Nat.le_of_succ_le h.bound, ?_,
    fun off hoff => ?_⟩
  · show q.count - 1 = l.length
    rw [h.count]
    rfl
  · show q.tail = ((q.head + 1) % q.cap + (q.count - 1)) % q.cap
    rw [h.tail, h.count, Nat.mod_add_mod, List.length_cons, Nat.add_sub_cancel, Nat.add_assoc,
      Nat.add_comm 1]
  · show q.cell (((q.head + 1) % q.cap + off) % q.cap) = _
    rw [Nat.mod_add_mod, Nat.add_assoc, Nat.add_comm 1 off]
    exact (h.read (off + 1) (Nat.succ_lt_succ hoff)).trans List.getElem?_cons_succ

/-- An array that is not empty gives its oldest item. -/
theorem Holds.pop_of_pos (h : q.Holds l) (hpos : 0 < q.count) :
    ∃ a l', l = a :: l' ∧ q.pop.1 = some a := by
  cases l with
  | nil => exact absurd h.count (Nat.ne_of_gt hpos)
  | cons a l => exact ⟨a, l, rfl, h.pop.1⟩

end Cyclic
