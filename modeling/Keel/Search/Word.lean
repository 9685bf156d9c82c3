-- SUMMARY: The first place of a word in a text, and how it moves.
import Mathlib.Data.List.Infix

/-!
# Searching for a word

`find n h` is the first position of the word `n` in the text `h`. A text that arrives in pieces
is searched piece by piece: what was found stays found, and a text without the word has to keep
only its last `n.length - 1` letters.
-/

open List Option

namespace WordSearch

variable {α : Type} [DecidableEq α] {n h b : List α} {k : Nat}

/-- The first position of `n` in a text. -/
def find (n : List α) : List α → Option Nat
  | [] => if n = [] then some 0 else none
  | a :: as => if n.isPrefixOf (a :: as) then some 0 else (find n as).map (· + 1)

theorem find_add_length (hk : find n h = some k) : k + n.length ≤ h.length := by
  induction h generalizing k with
  | nil =>
    unfold find at hk
    split at hk
    · next hn =>
      cases hk
      rw [hn]
      exact Nat.le_refl 0
    · cases hk
  | cons a as ih =>
    unfold find at hk
    split at hk
    · next hpre =>
      cases hk
      rw [Nat.zero_add]
      exact (List.isPrefixOf_iff_prefix.mp hpre).length_le
    · obtain ⟨j, hj, rfl⟩ := map_eq_some_iff.mp hk
      have hle := ih hj
      rw [length_cons]
      omega

theorem isPrefixOf_append (hlen : n.length ≤ h.length) :
    n.isPrefixOf (h ++ b) = n.isPrefixOf h := by
  rw [Bool.eq_iff_iff, isPrefixOf_iff_prefix, isPrefixOf_iff_prefix]
  constructor
  · exact fun hpre => prefix_of_prefix_length_le hpre (prefix_append h b) hlen
  · exact fun hpre => hpre.trans (prefix_append h b)

/-- What was found stays where it is when the text grows. -/
theorem find_append (hk : find n h = some k) (b : List α) : find n (h ++ b) = some k := by
  induction h generalizing k with
  | nil =>
    unfold find at hk
    split at hk
    · next hn =>
      cases hk
      rw [hn]
      cases b with
      | nil => rfl
      | cons a as => rfl
    · cases hk
  | cons a as ih =>
    have hlen := find_add_length hk
    have hsame := isPrefixOf_append (b := b) (Nat.le_of_add_left_le hlen)
    rw [cons_append, find, ← cons_append, hsame]
    unfold find at hk
    split at hk
    · next hpre => rw [if_pos hpre, hk]
    next hpre =>
    obtain ⟨j, hj, rfl⟩ := map_eq_some_iff.mp hk
    rw [if_neg hpre, ih hj]
    rfl

/-- A text that does not hold the word can be searched on without all but its last letters. -/
theorem find_drop (hnone : find n h = none) {d : Nat} (hd : d + n.length ≤ h.length + 1)
    (b : List α) : find n (h ++ b) = (find n (h.drop d ++ b)).map (d + ·) := by
  induction d generalizing h with
  | zero => simp
  | succ d ih =>
    cases h with
    | nil =>
      have hn : n ≠ [] := by
        rintro rfl
        cases hnone
      have hpos := length_pos_of_ne_nil hn
      rw [length_nil] at hd
      omega
    | cons a as =>
      rw [length_cons] at hd
      have hsame := isPrefixOf_append (n := n) (h := a :: as) (b := b) (by rw [length_cons]; omega)
      unfold find at hnone
      split at hnone
      · cases hnone
      next hpre =>
      rw [cons_append, find, ← cons_append, hsame, if_neg hpre,
        ih (map_eq_none_iff.mp hnone) (by omega), drop_succ_cons, Option.map_map]
      congr 1
      funext j
      exact (Nat.add_right_comm d 1 j).symm

/-- Its last `n.length - 1` letters are enough. -/
theorem find_trim (hnone : find n h = none) (b : List α) :
    find n (h ++ b) = (find n (h.drop (h.length - (n.length - 1)) ++ b)).map
    (h.length - (n.length - 1) + ·) := by
  rcases Nat.le_total h.length (n.length - 1) with hshort | hlong
  · rw [Nat.sub_eq_zero_of_le hshort]
    simp
  have hpos : 0 < n.length := by
    cases n with
    | nil => cases h <;> cases hnone
    | cons => exact Nat.succ_pos _
  exact find_drop hnone (by omega) b

/-! ## The place of a word that was written -/

theorem find_self (n b : List α) : find n (n ++ b) = some 0 := by
  cases n with
  | nil => cases b <;> rfl
  | cons a w =>
    rw [cons_append, find, if_pos]
    exact isPrefixOf_iff_prefix.mpr (prefix_append (a :: w) b)

/-- Letters among which the word cannot start are passed over. -/
theorem find_skip {a : α} {w : List α} (l b : List α) (ha : a ∉ l) :
    find (a :: w) (l ++ b) = (find (a :: w) b).map (l.length + ·) := by
  induction l with
  | nil => simp
  | cons c l ih =>
    obtain ⟨hc, hl⟩ := not_or.mp (mt mem_cons.mpr ha)
    have hpre : ¬(a :: w).isPrefixOf (c :: (l ++ b)) = true := by
      rw [List.isPrefixOf_iff_prefix, cons_prefix_cons]
      exact fun h => hc h.1
    rw [cons_append, find, if_neg hpre, ih hl, Option.map_map]
    congr 1
    funext j
    exact Nat.add_right_comm l.length j 1

theorem find_eq_none (h : ¬n <:+: b) : find n b = none := by
  induction b with
  | nil =>
    refine if_neg ?_
    rintro rfl
    exact h (List.nil_infix)
  | cons c b ih =>
    have hpre : ¬n.isPrefixOf (c :: b) = true := by
      rw [List.isPrefixOf_iff_prefix]
      exact fun hpre => h hpre.isInfix
    rw [find, if_neg hpre, ih fun hb => h (hb.trans (suffix_cons c b).isInfix)]
    rfl

/-- A word whose first letter stands nowhere else in it is found where it was written behind a
text that does not hold it: an occurrence that starts earlier would have that letter inside. -/
theorem find_written {a : α} {w : List α} (ha : a ∉ w) {h : List α} (hnone : find (a :: w) h = none)
    (b : List α) : find (a :: w) (h ++ (a :: w ++ b)) = some h.length := by
  induction h with
  | nil => exact find_self (a :: w) b
  | cons c h ih =>
    unfold find at hnone
    split at hnone
    · cases hnone
    rename_i hpre
    have hlater : ¬(a :: w).isPrefixOf (c :: (h ++ (a :: w ++ b))) = true := by
      intro hlater
      obtain ⟨t, ht⟩ := isPrefixOf_iff_prefix.mp hlater
      obtain ⟨rfl, hrest⟩ := cons.inj ht
      rcases append_eq_append_iff.mp hrest with ⟨m, hm, -⟩ | ⟨m, hm, hover⟩
      · -- the whole word lies inside the text
        rw [List.isPrefixOf_iff_prefix, cons_prefix_cons] at hpre
        exact hpre ⟨rfl, m, hm.symm⟩
      cases m with
      | nil =>
        rw [List.isPrefixOf_iff_prefix, cons_prefix_cons] at hpre
        exact hpre ⟨rfl, [], by rw [hm, append_nil, append_nil]⟩
      | cons d m =>
        -- its rest reaches into the written word, whose first letter it then holds
        obtain ⟨rfl, -⟩ := cons.inj hover
        refine ha ?_
        rw [hm]
        exact mem_append_right h mem_cons_self
    rw [cons_append, find, if_neg hlater, ih (map_eq_none_iff.mp hnone)]
    rfl

end WordSearch
