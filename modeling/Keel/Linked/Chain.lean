-- SUMMARY: Singly linked lists in a memory of cells that can be freed.
import Mathlib.Data.List.Basic
import Mathlib.Data.List.Nodup
import Mathlib.Data.List.Perm.Subperm

/-!
# Chains of cells

An intrusive list keeps its links in the cells it connects. `Chain next p l` says that
the links lead from `p` through exactly the cells of `l`, in this order, to the end.
A chain is finite, so it visits no cell twice, and `p` determines it. Code that follows
the links can be run as a walk with a bound on its steps.
-/

open List

namespace Linked

variable {α : Type} {next next' : α → Option α} {p q : Option α} {a b : α} {l l₁ l₂ m : List α}

def Chain (next : α → Option α) : Option α → List α → Prop
  | p, [] => p = none
  | p, a :: l => p = some a ∧ Chain next (next a) l

theorem Chain.nil : Chain next none [] := rfl

theorem Chain.cons (h : Chain next (next a) l) : Chain next (some a) (a :: l) := ⟨rfl, h⟩

theorem Chain.nil_of_none (h : Chain next none l) : l = [] := by
  cases l with
  | nil => rfl
  | cons a l => cases h.1

theorem Chain.of_some (h : Chain next (some a) l) : ∃ l', l = a :: l' ∧ Chain next (next a) l' := by
  cases l with
  | nil => cases h
  | cons b l' =>
    obtain ⟨heq, htail⟩ := h
    cases heq
    exact ⟨l', rfl, htail⟩

/-- A list head starts one chain. -/
theorem Chain.unique (h : Chain next p l) (h' : Chain next p m) : l = m := by
  induction l generalizing p m with
  | nil =>
    cases h
    exact h'.nil_of_none.symm
  | cons a l ih =>
    obtain ⟨rfl, htail⟩ := h
    obtain ⟨m', rfl, htail'⟩ := h'.of_some
    rw [ih htail htail']

/-- The links from a cell of the chain lead through the rest of it. -/
theorem Chain.drop (h : Chain next p (l₁ ++ a :: l₂)) : Chain next (some a) (a :: l₂) := by
  induction l₁ generalizing p with
  | nil => exact ⟨rfl, h.2⟩
  | cons b l₁ ih => exact ih h.2

/-- A chain that ends has no cycle. -/
theorem Chain.nodup (h : Chain next p l) : l.Nodup := by
  induction l generalizing p with
  | nil => exact nodup_nil
  | cons a l ih =>
    refine nodup_cons.mpr ⟨fun ha => ?_, ih h.2⟩
    -- a second visit would have to see the same rest
    obtain ⟨l₁, l₂, rfl⟩ := append_of_mem ha
    have hlen := congrArg length (h.2.drop.unique (.cons h.2))
    simp only [length_cons, length_append] at hlen
    omega

/-- Only the links of the cells of the chain matter. -/
theorem Chain.congr (h : Chain next p l) (hn : ∀ x ∈ l, next' x = next x) : Chain next' p l := by
  induction l generalizing p with
  | nil => exact h
  | cons a l ih =>
    refine ⟨h.1, ?_⟩
    rw [hn a mem_cons_self]
    exact ih h.2 fun x hx => hn x (mem_cons_of_mem a hx)

/-- A new entry in front. -/
theorem Chain.push (h : Chain next p l) (ha : next' a = p) (hn : ∀ x ∈ l, next' x = next x) :
    Chain next' (some a) (a :: l) := by
  refine .cons ?_
  rw [ha]
  exact h.congr hn

/-- The cell before `a` is linked to the one after it. -/
theorem Chain.unlink (h : Chain next p (l₁ ++ b :: a :: l₂)) (hb : next' b = next a)
    (hn : ∀ x, x ≠ b → next' x = next x) : Chain next' p (l₁ ++ b :: l₂) := by
  have hnodup := h.nodup
  induction l₁ generalizing p with
  | nil =>
    refine ⟨h.1, ?_⟩
    rw [hb]
    refine h.2.2.congr fun x hx => hn x fun hxb => ?_
    rw [hxb] at hx
    exact (nodup_cons.mp hnodup).1 (mem_cons_of_mem a hx)
  | cons c l₁ ih =>
    refine ⟨h.1, ?_⟩
    rw [hn c fun hcb => ?_]
    · exact ih h.2 (nodup_cons.mp hnodup).2
    · rw [hcb] at hnodup
      exact (nodup_cons.mp hnodup).1 (mem_append_right l₁ mem_cons_self)

/-- `next'` and `p'` are the links and the start of the chain after the cell `a` was
taken out: its predecessor, or the start, leads past it. Its own link stays. -/
def Unlinks (next : α → Option α) (p : Option α) (l : List α) (a : α) (next' : α → Option α)
    (p' : Option α) : Prop :=
  (∃ l₂, l = a :: l₂ ∧ p' = next a ∧ ∀ x, next' x = next x) ∨
  ∃ l₁ b l₂, l = l₁ ++ b :: a :: l₂ ∧ p' = p ∧ next' b = next a ∧ ∀ x, x ≠ b → next' x = next x

variable {p' : Option α} {stale rest : List α}

/-- Unlinking takes one entry out of the chain. -/
theorem Unlinks.chain [DecidableEq α] (hu : Unlinks next p l a next' p') (h : Chain next p l) :
    Chain next' p' (l.erase a) := by
  obtain ⟨l₂, rfl, rfl, hn⟩ | ⟨l₁, b, l₂, rfl, rfl, hb, hn⟩ := hu
  · rw [erase_cons_head]
    exact h.2.congr fun x _ => hn x
  · have hnodup := h.nodup
    have ha : a ∉ l₁ ++ [b] := by
      rw [append_cons] at hnodup
      exact fun hm => (nodup_append.mp hnodup).2.2 a hm a mem_cons_self rfl
    rw [append_cons, erase_append_right _ ha, erase_cons_head, ← append_cons]
    exact h.unlink hb hn

/-- A cursor that follows the links of the chain, possibly through stale cells that
were taken out before, still does so: the cell that is taken out leaves its way, or is
the next stale one. -/
theorem Unlinks.cursor [DecidableEq α] (hu : Unlinks next p l a next' p') (h : Chain next p l)
    (hc : Chain next q (stale ++ rest)) (hrest : rest <:+ l) (hstale : ∀ x ∈ stale, x ∉ l) :
    ∃ stale' rest', Chain next' q (stale' ++ rest') ∧ rest' <:+ l.erase a ∧
      (stale' ++ rest').Sublist (stale ++ rest) ∧ (∀ x ∈ stale', x ∈ stale ∨ x = a) ∧
      ∀ x ∈ rest, x ≠ a → x ∈ rest' := by
  have hnodup := h.nodup
  obtain ⟨pre, rfl⟩ := hrest
  obtain ⟨l₂, hl, rfl, hn⟩ | ⟨l₁, b, l₂, hl, rfl, hb, hn⟩ := hu
  · have hc' : Chain next' q (stale ++ rest) := hc.congr fun x _ => hn x
    rw [hl, erase_cons_head]
    cases pre with
    | nil =>
      -- the cursor was about to read the cell
      obtain rfl : rest = a :: l₂ := hl
      refine ⟨stale ++ [a], l₂, by simpa using hc', suffix_refl _, by simp, by simp, ?_⟩
      intro x hx hne
      exact (mem_cons.mp hx).resolve_left hne
    | cons c pre =>
      obtain ⟨rfl, rfl⟩ := cons.inj hl
      exact ⟨stale, rest, hc', suffix_append _ _, List.Sublist.refl _, fun x hx => .inl hx,
        fun x hx _ => hx⟩
  have hnd : (l₁ ++ b :: a :: l₂).Nodup := hl ▸ hnodup
  have herase : (pre ++ rest).erase a = l₁ ++ b :: l₂ := by
    have ha : a ∉ l₁ ++ [b] := by
      rw [append_cons] at hnd
      exact fun hm => (nodup_append.mp hnd).2.2 a hm a mem_cons_self rfl
    rw [hl, append_cons, erase_append_right _ ha, erase_cons_head,
      ← append_cons]
  have hbl : b ∈ pre ++ rest := hl ▸ mem_append_right l₁ mem_cons_self
  have hbs : b ∉ stale := fun hm => hstale b hm hbl
  rw [herase]
  -- the predecessor is on the way of the cursor, or it is not
  have hinside (m : List α) (hm : rest = m ++ b :: a :: l₂) (hl₁ : l₁ = pre ++ m) :
      ∃ stale' rest', Chain next' q (stale' ++ rest') ∧ rest' <:+ l₁ ++ b :: l₂ ∧
        (stale' ++ rest').Sublist (stale ++ rest) ∧ (∀ x ∈ stale', x ∈ stale ∨ x = a) ∧
        ∀ x ∈ rest, x ≠ a → x ∈ rest' := by
    subst hm hl₁
    refine ⟨stale, m ++ b :: l₂, ?_, ⟨pre, by simp⟩, ?_, fun x hx => .inl hx, ?_⟩
    · rw [← append_assoc] at hc ⊢
      exact hc.unlink hb hn
    · exact ((sublist_cons_self a l₂).cons_cons b).append_left m |>.append_left stale
    · intro x hx hne
      simp only [mem_append, mem_cons] at hx ⊢
      rcases hx with hx | hx | hx | hx
      · exact .inl hx
      · exact .inr (.inl hx)
      · exact absurd hx hne
      · exact .inr (.inr hx)
  have houtside (hbr : b ∉ rest) : Chain next' q (stale ++ rest) := by
    refine hc.congr fun x hx => hn x fun hxb => ?_
    rw [hxb] at hx
    exact (mem_append.mp hx).elim hbs hbr
  rcases append_eq_append_iff.mp hl with ⟨m, rfl, hm⟩ | ⟨m, rfl, hm⟩
  · exact hinside m hm rfl
  match m with
  | [] => exact hinside [] (by simpa using hm.symm) (by simp)
  | [c] =>
    obtain ⟨rfl, rfl⟩ := hm
    refine ⟨stale ++ [a], l₂, ?_, ⟨l₁ ++ [b], by simp⟩, by simp, by simp, ?_⟩
    · have hbr : b ∉ a :: l₂ := (nodup_cons.mp (nodup_append.mp hnd).2.1).1
      simpa using houtside hbr
    · intro x hx hne
      exact (mem_cons.mp hx).resolve_left hne
  | c :: d :: m =>
    obtain ⟨rfl, rfl, rfl⟩ := hm
    have hbr : b ∉ rest := fun hx =>
      (nodup_cons.mp (nodup_append.mp hnd).2.1).1
        (mem_cons_of_mem a (mem_append_right m hx))
    exact ⟨stale, rest, houtside hbr, ⟨l₁ ++ b :: m, by simp⟩, List.Sublist.refl _,
      fun x hx => .inl hx, fun x hx _ => hx⟩

/-! ## Walks -/

/-- The cells code reads that follows the links from `p`, in at most `n` steps. -/
def walk (next : α → Option α) : Nat → Option α → List α
  | _, none => []
  | 0, some _ => []
  | n + 1, some a => a :: walk next n (next a)

/-- A walk with enough steps visits the whole chain. -/
theorem Chain.walk_eq (h : Chain next p l) {n : Nat} (hn : l.length ≤ n) : walk next n p = l := by
  induction l generalizing p n with
  | nil =>
    cases h
    cases n <;> rfl
  | cons a l ih =>
    obtain ⟨rfl, htail⟩ := h
    cases n with
    | zero => simp at hn
    | succ n => exact congrArg (a :: ·) (ih htail (Nat.le_of_succ_le_succ hn))

/-! ## Memory -/

/-- The cells that are allocated. -/
abbrev Store (α β : Type) := List (α × β)

namespace Store

variable {β : Type} [DecidableEq α]

def get (m : Store α β) (a : α) : Option β := m.lookup a

def free (m : Store α β) (a : α) : Store α β := m.filter (·.1 ≠ a)

def set (m : Store α β) (a : α) (v : β) : Store α β := (a, v) :: m.free a

@[simp] theorem get_free_self (m : Store α β) (a : α) : (m.free a).get a = none := by
  induction m with
  | nil => rfl
  | cons x m ih =>
    unfold free get at ih ⊢
    by_cases hx : x.1 = a
    · simpa [filter_cons, hx] using ih
    · rw [filter_cons_of_pos (by simpa using hx), lookup_cons]
      simpa [beq_false_of_ne (Ne.symm hx)] using ih

@[simp] theorem get_free_ne {m : Store α β} {a b : α} (h : b ≠ a) : (m.free a).get b = m.get b := by
  induction m with
  | nil => rfl
  | cons x m ih =>
    unfold free get at ih ⊢
    by_cases hx : x.1 = a
    · rw [filter_cons_of_neg (by simpa using hx), ih, lookup_cons]
      simp [beq_false_of_ne (hx ▸ h)]
    · rw [filter_cons_of_pos (by simpa using hx), lookup_cons, lookup_cons, ih]

@[simp] theorem get_set_self (m : Store α β) (a : α) (v : β) : (m.set a v).get a = some v := by
  simp [set, get]

@[simp] theorem get_set_ne {m : Store α β} {a b : α} {v : β} (h : b ≠ a) :
    (m.set a v).get b = m.get b := by
  rw [← get_free_ne (m := m) h]
  simp [set, get, lookup_cons, beq_false_of_ne h]

/-- What is stored has its key. -/
theorem mem_keys {m : Store α β} {a : α} {v : β} (h : m.get a = some v) : a ∈ m.map Prod.fst := by
  induction m with
  | nil => cases h
  | cons x m ih =>
    by_cases hx : a = x.1
    · exact hx ▸ mem_cons_self
    refine mem_cons_of_mem _ (ih ?_)
    unfold get at h
    rw [lookup_cons, beq_false_of_ne hx] at h
    exact h

/-- Distinct allocated cells are no more than the memory has. -/
theorem length_le {m : Store α β} {l : List α} (hl : l.Nodup)
    (h : ∀ a ∈ l, ∃ v, m.get a = some v) : l.length ≤ m.length := by
  have hlen : (m.map Prod.fst).length = m.length := length_map Prod.fst
  rw [← hlen]
  refine (List.Nodup.subperm hl fun a ha => ?_).length_le
  obtain ⟨v, hv⟩ := h a ha
  exact mem_keys hv

end Store

end Linked
