-- SUMMARY: Numerals in a base: writing the digits of a number, and reading them back.
import Mathlib.Data.List.Basic
import Mathlib.Algebra.Ring.Nat

/-!
# Numerals

`putDigits` puts the digits of a number in front of what is already written, the last digit
first. A reader folds over the digits from the first one. The two meet in `foldl_putDigits`,
for any base and any way to write and read a single digit.
-/

namespace Numeral

variable {α : Type} (base : Nat) (digit : Nat → α)

/-- Put the digits of `n` in front of `acc`. A number that is 0 has none. -/
def putDigits : Nat → Nat → List α → List α
  | 0, _, acc => acc
  | fuel + 1, n, acc => if n = 0 then acc else putDigits fuel (n / base) (digit (n % base) :: acc)

/-- What the digits of a list are worth after digits worth `v`. -/
def worth (val : α → Nat) (v : Nat) (l : List α) : Nat := l.foldl (fun v c => v * base + val c) v

variable {base digit}

theorem le_worth (hbase : 0 < base) (val : α → Nat) (v : Nat) (l : List α) :
    v ≤ worth base val v l := by
  induction l generalizing v with
  | nil => exact Nat.le_refl v
  | cons c l ih =>
    exact Nat.le_trans (Nat.le_add_right_of_le (Nat.le_mul_of_pos_right v hbase)) (ih _)

theorem worth_putDigits (val : α → Nat) (hbase : 2 ≤ base) (hval : ∀ k < base, val (digit k) = k)
    {fuel n : Nat} (hfuel : n ≤ fuel) (acc : List α) :
    worth base val 0 (putDigits base digit fuel n acc) = worth base val n acc := by
  induction fuel generalizing n acc with
  | zero => rw [Nat.le_zero.mp hfuel, putDigits]
  | succ fuel ih =>
    unfold putDigits
    split
    · next hn => rw [hn]
    next hn =>
    have hlt : n / base < n := Nat.div_lt_self (Nat.pos_of_ne_zero hn) hbase
    have hdigit : val (digit (n % base)) = n % base := hval _ (Nat.mod_lt n (by omega))
    rw [ih (by omega)]
    simp only [worth, List.foldl_cons, hdigit]
    rw [Nat.div_add_mod']

/-- Every digit written is one of the base. -/
theorem mem_putDigits (hbase : 0 < base) {fuel n : Nat} {acc : List α} {c : α}
    (h : c ∈ putDigits base digit fuel n acc) : c ∈ acc ∨ ∃ k < base, c = digit k := by
  induction fuel generalizing n acc with
  | zero => exact .inl h
  | succ fuel ih =>
    unfold putDigits at h
    split at h
    · exact .inl h
    rcases ih h with h | h
    · rcases List.mem_cons.mp h with rfl | h
      · exact .inr ⟨n % base, Nat.mod_lt n hbase, rfl⟩
      · exact .inl h
    · exact .inr h

theorem length_le_putDigits (fuel n : Nat) (acc : List α) :
    acc.length ≤ (putDigits base digit fuel n acc).length := by
  induction fuel generalizing n acc with
  | zero => exact Nat.le_refl _
  | succ fuel ih =>
    unfold putDigits
    split
    · exact Nat.le_refl _
    · exact Nat.le_trans (Nat.le_succ _) (ih (n / base) (digit (n % base) :: acc))

end Numeral
