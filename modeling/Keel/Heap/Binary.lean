-- SUMMARY: Binary heaps in arrays: sifting, inserting, removing.
import Mathlib.Order.WithBot
import Mathlib.Logic.Equiv.Basic

/-!
# Binary heaps

The order of a heap is a property of the keys by position, a function from positions to keys
with `⊤` beyond the end of the array. The two directions of sifting are proved on such
functions, where an exchange of two entries is a composition with a transposition. The
loops on arrays follow.
-/

namespace BinaryHeap

def parent (i : Nat) : Nat := (i - 1) / 2

theorem parent_lt {i : Nat} (h : 0 < i) : parent i < i := by
  unfold parent
  omega

section

variable {κ : Type*}

/-- The keys after two entries changed places. -/
def exchange (r : Nat → κ) (i j : Nat) : Nat → κ := fun k => r (Equiv.swap i j k)

theorem exchange_left (r : Nat → κ) (i j : Nat) : exchange r i j i = r j :=
  congrArg r (Equiv.swap_apply_left i j)

theorem exchange_right (r : Nat → κ) (i j : Nat) : exchange r i j j = r i :=
  congrArg r (Equiv.swap_apply_right i j)

theorem exchange_of_ne {i j k : Nat} (r : Nat → κ) (hi : k ≠ i) (hj : k ≠ j) :
    exchange r i j k = r k :=
  congrArg r (Equiv.swap_apply_of_ne_of_ne hi hj)

variable [LinearOrder κ] {r : Nat → κ} {idx : Nat}

/-! ## Keys by position -/

/-- No entry is before its parent. -/
def Ordered (r : Nat → κ) : Prop := ∀ i, 0 < i → r (parent i) ≤ r i

/-- The order holds but for the pairs of `idx`, and it would hold without `idx`. -/
structure OffAt (r : Nat → κ) (idx : Nat) : Prop where
  others : ∀ i, 0 < i → i ≠ idx → parent i ≠ idx → r (parent i) ≤ r i
  across : 0 < idx → ∀ c, 0 < c → parent c = idx → r (parent idx) ≤ r c

/-- Only the pair of `idx` and its parent may be out of order. -/
structure UpAt (r : Nat → κ) (idx : Nat) : Prop extends OffAt r idx where
  below : ∀ c, 0 < c → parent c = idx → r idx ≤ r c

/-- Only the pairs of `idx` and its children may be out of order. -/
structure DownAt (r : Nat → κ) (idx : Nat) : Prop extends OffAt r idx where
  above : 0 < idx → r (parent idx) ≤ r idx

/-- The root comes first. -/
theorem Ordered.root_le (h : Ordered r) (i : Nat) : r 0 ≤ r i := by
  induction i using Nat.strong_induction_on with
  | _ i ih =>
    rcases Nat.eq_zero_or_pos i with rfl | hi
    · exact le_refl _
    · exact (ih (parent i) (parent_lt hi)).trans (h i hi)

/-- A heap is one whatever entry is left out of account. -/
theorem Ordered.offAt (h : Ordered r) (idx : Nat) : OffAt r idx :=
  ⟨fun i hi _ _ => h i hi, fun hidx c hc hp => (h idx hidx).trans (hp ▸ h c hc)⟩

/-- Sifting up ends at the root or below a smaller parent. -/
theorem UpAt.ordered (h : UpAt r idx) (hstop : 0 < idx → r (parent idx) ≤ r idx) : Ordered r := by
  intro i hi
  by_cases hidx : i = idx
  · exact hidx ▸ hstop (hidx ▸ hi)
  by_cases hp : parent i = idx
  · rw [hp]
    exact h.below i hi hp
  · exact h.others i hi hidx hp

/-- Sifting down ends above larger children. -/
theorem DownAt.ordered (h : DownAt r idx) (hstop : ∀ c, 0 < c → parent c = idx → r idx ≤ r c) :
    Ordered r :=
  UpAt.ordered ⟨h.toOffAt, hstop⟩ h.above

/-- A key before its parent's changes places with it. -/
theorem UpAt.step (h : UpAt r idx) (hidx : 0 < idx) (hlt : r idx < r (parent idx)) :
    UpAt (exchange r idx (parent idx)) (parent idx) := by
  have hpar := parent_lt hidx
  -- the old parent stays before everything that was below it
  have hdown : ∀ c, 0 < c → parent c = parent idx →
      r (parent idx) ≤ exchange r idx (parent idx) c := by
    intro c hc hp
    by_cases hci : c = idx
    · rw [hci, exchange_left]
    · have hup := parent_lt hc
      rw [exchange_of_ne r hci (by omega)]
      exact hp ▸ h.others c hc hci (by omega)
  refine ⟨⟨fun i hi hne hp => ?_, fun hpos c hc hp => ?_⟩, fun c hc hp => ?_⟩
  · have hii : i ≠ idx := fun hii => hp (hii ▸ rfl)
    rw [exchange_of_ne r hii hne]
    by_cases hpi : parent i = idx
    · rw [hpi, exchange_left]
      exact h.across hidx i hi hpi
    · rw [exchange_of_ne r hpi hp]
      exact h.others i hi hii hpi
  · have hgrand := parent_lt hpos
    rw [exchange_of_ne r (by omega) (by omega)]
    exact (h.others _ hpos (by omega) (by omega)).trans (hdown c hc hp)
  · rw [exchange_right]
    exact hlt.le.trans (hdown c hc hp)

/-- The children of a position. -/
theorem eq_child {c idx : Nat} (hc : 0 < c) (h : parent c = idx) :
    c = 2 * idx + 1 ∨ c = 2 * idx + 2 := by
  unfold parent at h
  omega

theorem parent_child {c idx : Nat} (h : c = 2 * idx + 1 ∨ c = 2 * idx + 2) : parent c = idx := by
  unfold parent
  omega

/-- The first child changes places with a key that it is before. -/
theorem DownAt.step {s : Nat} (h : DownAt r idx) (hs : s = 2 * idx + 1 ∨ s = 2 * idx + 2)
    (hlt : r s < r idx) (hfirst : ∀ c, 0 < c → parent c = idx → r s ≤ r c) :
    DownAt (exchange r idx s) s := by
  have hps := parent_child hs
  have hgt : idx < s := by omega
  refine ⟨⟨fun i hi hne hp => ?_, fun hpos c hc hp => ?_⟩, fun _ => ?_⟩
  · by_cases hii : i = idx
    · subst hii
      have hpi := parent_lt hi
      rw [exchange_left, exchange_of_ne r (by omega) (by omega)]
      exact h.across hi s (by omega) hps
    · rw [exchange_of_ne r hii hne]
      by_cases hpi : parent i = idx
      · rw [hpi, exchange_left]
        exact hfirst i hi hpi
      · rw [exchange_of_ne r hpi hp]
        exact h.others i hi hii hpi
  · have hcs : s < c := by
      unfold parent at hp
      omega
    rw [hps, exchange_left, exchange_of_ne r (by omega) (by omega)]
    exact hp ▸ h.others c hc (by omega) (by omega)
  · rw [hps, exchange_left, exchange_right]
    exact hlt.le

end

/-! ## Arrays -/

section

variable {α : Type} (before : α → α → Bool)

/-- The entry at `i` is before the one at `j`. -/
def beforeAt (xs : Array α) (i j : Nat) : Bool :=
  match xs[i]?, xs[j]? with
  | some a, some b => before a b
  | _, _ => false

/-- Move an entry up while it is before its parent. -/
def siftUp : Nat → Array α → Nat → Array α
  | 0, xs, _ => xs
  | fuel + 1, xs, idx =>
    if 0 < idx ∧ beforeAt before xs idx (parent idx) then
      siftUp fuel (xs.swapIfInBounds idx (parent idx)) (parent idx)
    else xs

/-- The first of an entry and its children. -/
def smallest (xs : Array α) (idx : Nat) : Nat :=
  let left := 2 * idx + 1
  let right := 2 * idx + 2
  let s := if left < xs.size ∧ beforeAt before xs left idx then left else idx
  if right < xs.size ∧ beforeAt before xs right s then right else s

/-- The first of two entries, the second perhaps beyond the end. -/
def firstOf (xs : Array α) (m c : Nat) : Nat :=
  if c < xs.size ∧ beforeAt before xs c m then c else m

/-- Move an entry down while one of its children is before it. -/
def siftDown : Nat → Array α → Nat → Array α
  | 0, xs, _ => xs
  | fuel + 1, xs, idx =>
    let s := smallest before xs idx
    if s = idx then xs else siftDown fuel (xs.swapIfInBounds idx s) s

/-- Put the last entry in the place of `idx` and shorten the array. -/
def fillWithLast (xs : Array α) (idx : Nat) : Array α :=
  match xs.back? with
  | some last => (xs.setIfInBounds idx last).pop
  | none => xs

variable {before} {κ : Type*} (key : α → κ)

/-- The key of a position, `⊤` beyond the end. -/
def rank (xs : Array α) (i : Nat) : WithTop κ :=
  match xs[i]? with
  | some a => key a
  | none => ⊤

variable {key} {xs : Array α} {idx : Nat} {i j fuel : Nat}

theorem rank_of_lt (h : i < xs.size) : rank key xs i = key xs[i] := by
  simp [rank, h]

theorem rank_of_le (h : xs.size ≤ i) : rank key xs i = ⊤ := by
  simp [rank, h]

theorem swapIfInBounds_eq (hi : i < xs.size) (hj : j < xs.size) :
    xs.swapIfInBounds i j = xs.swap i j hi hj := by
  simp [Array.swapIfInBounds, hi, hj]

/-- Swapping entries exchanges their ranks. -/
theorem rank_swap (hi : i < xs.size) (hj : j < xs.size) :
    rank key (xs.swapIfInBounds i j) = exchange (rank key xs) i j := by
  funext k
  rw [swapIfInBounds_eq hi hj]
  unfold rank
  rw [Array.getElem?_swap hi hj]
  by_cases hki : k = i
  · subst hki
    by_cases hkj : j = k
    · subst hkj
      simp [exchange, hi]
    · simp [exchange, hkj, hj]
  · by_cases hkj : k = j
    · subst hkj
      simp [exchange, hi]
    · simp [exchange, Equiv.swap_apply_of_ne_of_ne hki hkj, Ne.symm hki, Ne.symm hkj]

variable [LinearOrder κ]

/-- The comparison of two entries is that of their keys. -/
def Reflects (before : α → α → Bool) (key : α → κ) : Prop :=
  ∀ a b, before a b = true ↔ key a < key b

/-- The comparison of the code is that of the ranks. -/
theorem beforeAt_iff (hkey : Reflects before key) (hj : j < xs.size) :
    beforeAt before xs i j = true ↔ rank key xs i < rank key xs j := by
  by_cases hi : i < xs.size
  · simp [beforeAt, rank, hi, hj, hkey xs[i] xs[j]]
  · simp [beforeAt, rank, hi]

theorem swap_perm (xs : Array α) (i j : Nat) : (xs.swapIfInBounds i j).toList.Perm xs.toList := by
  unfold Array.swapIfInBounds
  split
  · split
    · exact (Array.swap_perm _ _).toList
    · exact List.Perm.refl _
  · exact List.Perm.refl _

/-! ### The loops -/

/-- Sifting only reorders. -/
theorem siftUp_perm (fuel : Nat) (xs : Array α) (idx : Nat) :
    (siftUp before fuel xs idx).toList.Perm xs.toList := by
  induction fuel generalizing xs idx with
  | zero => exact List.Perm.refl _
  | succ fuel ih =>
    unfold siftUp
    split
    · exact (ih _ _).trans (swap_perm xs _ _)
    · exact List.Perm.refl _

theorem siftDown_perm (fuel : Nat) (xs : Array α) (idx : Nat) :
    (siftDown before fuel xs idx).toList.Perm xs.toList := by
  induction fuel generalizing xs idx with
  | zero => exact List.Perm.refl _
  | succ fuel ih =>
    unfold siftDown
    simp only
    split
    · exact List.Perm.refl _
    · exact (ih _ _).trans (swap_perm xs _ _)

section

variable (hkey : Reflects before key)
include hkey

/-- Sifting up repairs a heap that is off at one entry. -/
theorem siftUp_ordered (hfuel : idx ≤ fuel) (hidx : idx < xs.size)
    (h : UpAt (rank key xs) idx) : Ordered (rank key (siftUp before fuel xs idx)) := by
  induction fuel generalizing xs idx with
  | zero => exact h.ordered fun hpos => absurd hpos (by omega)
  | succ fuel ih =>
    unfold siftUp
    split
    · next hup =>
      have hpar := parent_lt hup.1
      have hlt := (beforeAt_iff hkey (by omega)).mp hup.2
      refine ih (by omega) (by rw [Array.size_swapIfInBounds]; omega) ?_
      rw [rank_swap hidx (by omega)]
      exact h.step hup.1 hlt
    · next hstop =>
      refine h.ordered fun hpos => ?_
      have hpar := parent_lt hpos
      rw [← not_lt, ← beforeAt_iff hkey (by omega)]
      exact fun hb => hstop ⟨hpos, hb⟩

theorem firstOf_spec {m : Nat} (hm : m < xs.size) (c : Nat) : let s := firstOf before xs m c
    s < xs.size ∧ rank key xs s ≤ rank key xs c ∧ rank key xs s ≤ rank key xs m ∧
      (s = m ∨ s = c ∧ rank key xs s < rank key xs m) := by
  unfold firstOf
  split
  · next hc =>
    have hlt := (beforeAt_iff hkey hm).mp hc.2
    exact ⟨hc.1, le_refl _, hlt.le, .inr ⟨rfl, hlt⟩⟩
  · next hc =>
    refine ⟨hm, ?_, le_refl _, .inl rfl⟩
    by_cases hsize : c < xs.size
    · rw [← not_lt, ← beforeAt_iff hkey hm]
      exact fun hb => hc ⟨hsize, hb⟩
    · rw [rank_of_le (Nat.le_of_not_lt hsize)]
      exact le_top

/-- The first of an entry and its children. -/
theorem smallest_spec (hidx : idx < xs.size) : let s := smallest before xs idx
    (s = idx ∨ (s = 2 * idx + 1 ∨ s = 2 * idx + 2) ∧ rank key xs s < rank key xs idx) ∧
      s < xs.size ∧ ∀ c, 0 < c → parent c = idx → rank key xs s ≤ rank key xs c := by
  have hpick : smallest before xs idx = firstOf before xs (firstOf before xs idx (2 * idx + 1))
      (2 * idx + 2) := rfl
  rw [hpick]
  obtain ⟨hm, hleft, hmle, hm'⟩ := firstOf_spec hkey hidx (2 * idx + 1)
  obtain ⟨hs, hright, hle, hs'⟩ := firstOf_spec hkey hm (2 * idx + 2)
  refine ⟨?_, hs, fun c hc hp => ?_⟩
  · rcases hs' with hs' | ⟨hs', hlt⟩
    · rw [hs']
      exact hm'.imp_right (And.imp_left .inl)
    · exact .inr ⟨.inr hs', hlt.trans_le hmle⟩
  · rcases eq_child hc hp with rfl | rfl
    · exact hle.trans hleft
    · exact hright

/-- Sifting down repairs a heap that is off at one entry. -/
theorem siftDown_ordered (hfuel : xs.size ≤ idx + fuel)
    (hidx : idx < xs.size) (h : DownAt (rank key xs) idx) :
    Ordered (rank key (siftDown before fuel xs idx)) := by
  induction fuel generalizing xs idx with
  | zero => omega
  | succ fuel ih =>
    obtain ⟨hchoice, hsize, hfirst⟩ := smallest_spec hkey hidx
    unfold siftDown
    simp only
    split
    · next hs =>
      rw [hs] at hfirst
      exact h.ordered hfirst
    · next hs =>
      obtain ⟨hchild, hlt⟩ := hchoice.resolve_left hs
      refine ih (by rw [Array.size_swapIfInBounds]; omega) (by rwa [Array.size_swapIfInBounds]) ?_
      rw [rank_swap hidx hsize]
      exact h.step hchild hlt hfirst

/-- Nothing moves in a heap. -/
theorem siftDown_of_ordered (h : Ordered (rank key xs)) (fuel : Nat)
    (hidx : idx < xs.size) : siftDown before fuel xs idx = xs := by
  cases fuel with
  | zero => rfl
  | succ fuel =>
    unfold siftDown
    refine if_pos ?_
    by_contra hs
    obtain ⟨hchild, hlt⟩ := (smallest_spec hkey hidx).1.resolve_left hs
    have hle := h (smallest before xs idx) (by omega)
    rw [parent_child hchild] at hle
    exact absurd hlt (not_lt.mpr hle)

theorem siftUp_of_le (hidx : idx < xs.size)
    (hle : 0 < idx → rank key xs (parent idx) ≤ rank key xs idx) (fuel : Nat) :
    siftUp before fuel xs idx = xs := by
  cases fuel with
  | zero => rfl
  | succ fuel =>
    refine if_neg fun hup => ?_
    have hlt := (beforeAt_iff hkey (Nat.lt_trans (parent_lt hup.1) hidx)).mp hup.2
    exact absurd hlt (not_lt.mpr (hle hup.1))

end

theorem size_siftUp (fuel : Nat) (xs : Array α) (idx : Nat) :
    (siftUp before fuel xs idx).size = xs.size := by
  simpa using (@siftUp_perm _ before fuel xs idx).length_eq

/-- Both directions, one after the other, repair the order around one entry. -/
theorem sift_both_ordered (hkey : Reflects before key) (hfuel : xs.size ≤ fuel)
    (hidx : idx < xs.size) (h : OffAt (rank key xs) idx) :
    Ordered (rank key (siftDown before fuel (siftUp before fuel xs idx) idx)) := by
  by_cases hup : 0 < idx ∧ rank key xs idx < rank key xs (parent idx)
  · -- it moves up, and then nothing has to move down
    have hready : UpAt (rank key xs) idx :=
      ⟨h, fun c hc hp => hup.2.le.trans (h.across hup.1 c hc hp)⟩
    have hord := siftUp_ordered hkey (Nat.le_trans (Nat.le_of_lt hidx) hfuel) hidx hready
    rw [siftDown_of_ordered hkey hord fuel (by rwa [size_siftUp])]
    exact hord
  · have hle : 0 < idx → rank key xs (parent idx) ≤ rank key xs idx :=
      fun hpos => not_lt.mp fun hlt => hup ⟨hpos, hlt⟩
    rw [siftUp_of_le hkey hidx hle]
    exact siftDown_ordered hkey (by omega) hidx ⟨h, hle⟩

/-! ### The operations -/

/-- An entry behind the last one moves up. -/
theorem push_ordered (hkey : Reflects before key) (h : Ordered (rank key xs)) (a : α)
    (hfuel : xs.size ≤ fuel) : Ordered (rank key (siftUp before fuel (xs.push a) xs.size)) := by
  have hold : ∀ i, i ≠ xs.size → rank key (xs.push a) i = rank key xs i := by
    intro i hi
    simp [rank, Array.getElem?_push, hi]
  have hbeyond : ∀ c, xs.size < c → rank key (xs.push a) c = ⊤ := by
    intro c hc
    exact rank_of_le (by rw [Array.size_push]; omega)
  refine siftUp_ordered hkey hfuel (by simp) ⟨⟨fun i hi hne hp => ?_, fun _ c hc hp => ?_⟩,
    fun c hc hp => ?_⟩
  · rw [hold i hne, hold _ hp]
    exact h i hi
  · have := parent_lt hc
    rw [hbeyond c (by omega)]
    exact le_top
  · have := parent_lt hc
    rw [hbeyond c (by omega)]
    exact le_top

/-- A push adds its entry. -/
theorem push_perm (xs : Array α) (a : α) (fuel : Nat) :
    (siftUp before fuel (xs.push a) xs.size).toList.Perm (a :: xs.toList) := by
  refine (siftUp_perm _ _ _).trans ?_
  rw [Array.toList_push]
  exact List.perm_append_singleton a xs.toList

theorem fillWithLast_eq (hidx : idx < xs.size) :
    fillWithLast xs idx = (xs.swapIfInBounds idx (xs.size - 1)).pop := by
  have hlast : xs.size - 1 < xs.size := by omega
  have hback : xs.back? = some xs[xs.size - 1] := by simp [Array.back?, hlast]
  rw [fillWithLast, hback]
  apply Array.ext_getElem?
  intro i
  simp only [Array.getElem?_pop, Array.size_setIfInBounds, Array.size_swapIfInBounds]
  split
  · next hi =>
    rw [swapIfInBounds_eq hidx hlast, Array.getElem?_setIfInBounds, Array.getElem?_swap hidx hlast]
    have hne : xs.size - 1 ≠ i := by omega
    simp [hidx, hne]
  · rfl

theorem size_fillWithLast (hidx : idx < xs.size) : (fillWithLast xs idx).size = xs.size - 1 := by
  rw [fillWithLast_eq hidx, Array.size_pop, Array.size_swapIfInBounds]

/-- The entry that is filled is the one that leaves. -/
theorem fillWithLast_perm (hidx : idx < xs.size) :
    xs.toList.Perm (xs[idx] :: (fillWithLast xs idx).toList) := by
  have hlast : xs.size - 1 < xs.size := by omega
  have hne : (xs.swap idx (xs.size - 1) hidx hlast).toList ≠ [] := by
    apply List.ne_nil_of_length_pos
    rw [Array.length_toList, Array.size_swap]
    omega
  have hend : (xs.swap idx (xs.size - 1) hidx hlast).toList.getLast hne = xs[idx] := by
    rw [List.getLast_eq_getElem]
    simp
  have hperm : xs.toList.Perm (xs.swap idx (xs.size - 1) hidx hlast).toList :=
    (Array.swap_perm _ _).toList.symm
  refine hperm.trans ?_
  rw [fillWithLast_eq hidx, swapIfInBounds_eq hidx hlast, Array.toList_pop]
  conv_lhs => rw [← List.dropLast_concat_getLast hne, hend]
  exact List.perm_append_singleton _ _

/-- The order after the last entry filled a gap. -/
theorem fillWithLast_offAt (h : Ordered (rank key xs)) (hidx : idx < xs.size) :
    OffAt (rank key (fillWithLast xs idx)) idx := by
  have hlast : xs.size - 1 < xs.size := by omega
  have hrank : ∀ i, i ≠ idx → i < xs.size - 1 → rank key (fillWithLast xs idx) i =
      rank key xs i := by
    intro i hi hlt
    have hfill : (fillWithLast xs idx)[i]? = xs[i]? := by
      have hback : xs.back? = some xs[xs.size - 1] := by simp [Array.back?, hlast]
      simp only [fillWithLast, hback]
      rw [Array.getElem?_pop, Array.size_setIfInBounds, if_pos hlt, Array.getElem?_setIfInBounds,
        if_neg (Ne.symm hi)]
    simp only [rank, hfill]
  have hbeyond : ∀ i, xs.size - 1 ≤ i → rank key (fillWithLast xs idx) i = ⊤ :=
    fun i hi => rank_of_le (by rwa [size_fillWithLast hidx])
  refine ⟨fun i hi hne hp => ?_, fun hpos c hc hp => ?_⟩
  · by_cases hlt : i < xs.size - 1
    · have := parent_lt hi
      rw [hrank i hne hlt, hrank _ hp (by omega)]
      exact h i hi
    · rw [hbeyond i (Nat.le_of_not_lt hlt)]
      exact le_top
  · by_cases hlt : c < xs.size - 1
    · have hup := parent_lt hc
      have hup' := parent_lt hpos
      rw [hrank c (by omega) hlt, hrank _ (by omega) (by omega)]
      exact (h.offAt idx).across hpos c hc hp
    · rw [hbeyond c (Nat.le_of_not_lt hlt)]
      exact le_top

/-- Without its last entry a heap is a heap. -/
theorem fillWithLast_ordered (h : Ordered (rank key xs)) (hidx : idx < xs.size)
    (hend : (fillWithLast xs idx).size ≤ idx) : Ordered (rank key (fillWithLast xs idx)) := by
  have hbeyond : ∀ i, idx ≤ i → rank key (fillWithLast xs idx) i = ⊤ :=
    fun i hi => rank_of_le (hend.trans hi)
  have hoff := fillWithLast_offAt h hidx
  intro i hi
  by_cases hlt : i < idx
  · have := parent_lt hi
    exact hoff.others i hi (by omega) (by omega)
  · rw [hbeyond i (Nat.le_of_not_lt hlt)]
    exact le_top

end

end BinaryHeap
