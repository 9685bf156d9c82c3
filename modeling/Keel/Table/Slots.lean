-- SUMMARY: Tables of slots: counts, unique keys, scans.
import Mathlib.Data.List.Basic
import Mathlib.Data.List.Count

/-!
# Tables of slots

A table is a list of entries of fixed length. An entry is live or free, and a write changes
one entry in place.
-/

open List

namespace Slots

variable {α : Type} {live : α → Bool} {xs : List α} {i : Nat} {a b : α}

/-! ## The number of live entries -/

theorem countP_fill (ha : xs[i]? = some a) (hfree : live a = false) (hb : live b = true) :
    (xs.set i b).countP live = xs.countP live + 1 := by
  obtain ⟨hi, rfl⟩ := List.getElem?_eq_some_iff.mp ha
  rw [countP_set hi, hfree, hb]
  simp

theorem countP_free (ha : xs[i]? = some a) (hlive : live a = true) (hb : live b = false) :
    (xs.set i b).countP live + 1 = xs.countP live := by
  obtain ⟨hi, rfl⟩ := List.getElem?_eq_some_iff.mp ha
  have hpos : 0 < xs.countP live := countP_pos_iff.mpr ⟨_, getElem_mem hi, hlive⟩
  rw [countP_set hi, hlive, hb]
  simp only [if_true, Bool.false_eq_true, if_false]
  omega

theorem countP_keep (ha : xs[i]? = some a) (hb : live b = live a) :
    (xs.set i b).countP live = xs.countP live := by
  obtain ⟨hi, rfl⟩ := List.getElem?_eq_some_iff.mp ha
  have hpos : live xs[i] = true → 0 < xs.countP live :=
    fun h => countP_pos_iff.mpr ⟨_, getElem_mem hi, h⟩
  rw [countP_set hi, hb]
  split
  · next h => have := hpos h; omega
  · omega

theorem countP_set_le (ha : xs[i]? = some a) (hb : live b = false) :
    (xs.set i b).countP live ≤ xs.countP live := by
  cases hlive : live a with
  | true => exact Nat.le_of_succ_le (Nat.le_of_eq (countP_free ha hlive hb))
  | false => exact Nat.le_of_eq (countP_keep ha (hb.trans hlive.symm))

/-! ## Keys -/

section

variable {κ : Type} {key : α → κ}

/-- No two live entries have the same key. -/
def Unique (live : α → Bool) (key : α → κ) (xs : List α) : Prop :=
  ∀ (i j : Nat) (a b : α), xs[i]? = some a → xs[j]? = some b → live a = true → live b = true →
    key a = key b → i = j

theorem getElem?_set_cases {j : Nat} {c : α} (h : (xs.set i b)[j]? = some c) :
    (j = i ∧ c = b) ∨ (j ≠ i ∧ xs[j]? = some c) := by
  rw [getElem?_set] at h
  split at h
  · next hij =>
    split at h
    · exact .inl ⟨hij.symm, (Option.some.inj h).symm⟩
    · cases h
  · next hij => exact .inr ⟨Ne.symm hij, h⟩

/-- A write whose key no other live entry has. -/
theorem Unique.set (h : Unique live key xs)
    (hnew : live b = true → ∀ j c, j ≠ i → xs[j]? = some c → live c = true → key c ≠ key b) :
    Unique live key (xs.set i b) := by
  intro j k c d hc hd hlc hld heq
  rcases getElem?_set_cases hc with ⟨rfl, rfl⟩ | ⟨hj, hc'⟩
  · rcases getElem?_set_cases hd with ⟨rfl, -⟩ | ⟨hk, hd'⟩
    · rfl
    · exact absurd heq.symm (hnew hlc k d hk hd' hld)
  · rcases getElem?_set_cases hd with ⟨rfl, rfl⟩ | ⟨hk, hd'⟩
    · exact absurd heq (hnew hld j c hj hc' hlc)
    · exact h j k c d hc' hd' hlc hld heq

end

/-! ## Scans -/

theorem exists_of_findIdx? {p : α → Bool} (h : xs.findIdx? p = some i) :
    ∃ a, xs[i]? = some a ∧ p a = true := by
  obtain ⟨hi, hp, -⟩ := findIdx?_eq_some_iff_getElem.mp h
  exact ⟨xs[i], getElem?_eq_getElem hi, hp⟩

theorem forall_of_findIdx? {p : α → Bool} (h : xs.findIdx? p = none) {j : Nat}
    (ha : xs[j]? = some a) : p a = false :=
  findIdx?_eq_none_iff.mp h a (mem_of_getElem? ha)

/-- Look through the entries that meet `p` for the one with the smallest value. The scan starts
at position `i` with the candidate `idx`, and takes only values below `best`. -/
def scanMin (p : α → Bool) (value : α → Nat) : List α → Nat → Option Nat → Nat → Option Nat
  | [], _, idx, _ => idx
  | a :: as, i, idx, best =>
    if p a ∧ value a < best then scanMin p value as (i + 1) (some i) (value a)
    else scanMin p value as (i + 1) idx best

variable (p : α → Bool) (value : α → Nat)

/-- The scan ends with the candidate it was given or with an entry that it has seen. -/
theorem scanMin_spec (xs : List α) (i : Nat) (idx : Option Nat) (best : Nat) :
    scanMin p value xs i idx best = idx ∨
      ∃ j a, scanMin p value xs i idx best = some (i + j) ∧ xs[j]? = some a ∧ p a = true := by
  induction xs generalizing i idx best with
  | nil => exact .inl rfl
  | cons x xs ih =>
    unfold scanMin
    split
    · next hx =>
      rcases ih (i + 1) (some i) (value x) with hsame | ⟨j, a, hj, ha, hp⟩
      · exact .inr ⟨0, x, hsame, rfl, hx.1⟩
      · exact .inr ⟨j + 1, a, hj.trans (congrArg some (by omega)), ha, hp⟩
    · rcases ih (i + 1) idx best with hsame | ⟨j, a, hj, ha, hp⟩
      · exact .inl hsame
      · exact .inr ⟨j + 1, a, hj.trans (congrArg some (by omega)), ha, hp⟩

variable {p value}

/-- A scan with a candidate, or with an entry it can take, finds one. -/
theorem scanMin_ne_none {xs : List α} {i : Nat} {idx : Option Nat} {best : Nat}
    (h : idx ≠ none ∨ ∃ a ∈ xs, p a = true ∧ value a < best) :
    scanMin p value xs i idx best ≠ none := by
  induction xs generalizing i idx best with
  | nil => exact h.resolve_right fun ⟨_, ha, _⟩ => nomatch ha
  | cons x xs ih =>
    unfold scanMin
    split
    · exact ih (.inl (Option.some_ne_none i))
    next hx =>
    refine ih (h.imp_right ?_)
    rintro ⟨a, ha, hp, hlt⟩
    rcases mem_cons.mp ha with rfl | hin
    · exact absurd ⟨hp, hlt⟩ hx
    · exact ⟨a, hin, hp, hlt⟩

end Slots
