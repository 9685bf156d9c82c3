-- SUMMARY: Machines that read a word and give out another, symbol by symbol.
import Mathlib.Data.List.Basic

/-!
# Transducers and residuals

A transducer reads one symbol at a time and gives out a word for each. Some of its states
are final: the machine has read all it wants and stays there.

A family of residuals says for each state which words lead from it to a final state, and
what is given out on the way. The family is tied to the machine by one law for each
symbol, its derivative. Everything a proof wants to know about whole words follows from
that law.
-/

structure Transducer (σ α β : Type*) where
  step : σ → α → σ
  out : σ → α → List β

namespace Transducer

variable {σ α β : Type*} (M : Transducer σ α β) (s : σ)

/-- The state after a word. -/
def run (w : List α) : σ := w.foldl M.step s

/-- What is given out while a word is read. -/
def output : σ → List α → List β
  | _, [] => []
  | s, a :: w => M.out s a ++ output (M.step s a) w

@[simp] theorem run_nil : M.run s [] = s := rfl
@[simp] theorem run_cons (a : α) (w : List α) : M.run s (a :: w) = M.run (M.step s a) w := rfl
@[simp] theorem output_nil : M.output s [] = [] := rfl
@[simp] theorem output_cons (a : α) (w : List α) :
    M.output s (a :: w) = M.out s a ++ M.output (M.step s a) w := rfl

/-- Running over two words in a row. -/
theorem run_append (p q : List α) : M.run s (p ++ q) = M.run (M.run s p) q := List.foldl_append

/-- The output of two words in a row. -/
theorem output_append (p q : List α) :
    M.output s (p ++ q) = M.output s p ++ M.output (M.run s p) q := by
  induction p generalizing s with
  | nil => rfl
  | cons a p ih => simp [ih]

/-- The machine stays in the state and gives out nothing more. -/
def Absorbing : Prop := ∀ a, M.step s a = s ∧ M.out s a = []

variable {M} {s : σ}

theorem Absorbing.run (h : M.Absorbing s) (w : List α) : M.run s w = s := by
  induction w with
  | nil => rfl
  | cons a w ih => rw [run_cons, (h a).1, ih]

theorem Absorbing.output (h : M.Absorbing s) (w : List α) : M.output s w = [] := by
  induction w with
  | nil => rfl
  | cons a w ih => rw [output_cons, (h a).1, (h a).2, ih, List.append_nil]

/-- `L s w o`: from `s` the word `w` leads to a final state, at its last symbol and not
before, and `o` is given out on the way. The law for a symbol is asked for only where at
least `k` symbols follow it. -/
structure Residuals (M : Transducer σ α β) (k : Nat) (Valid Final : σ → Prop)
    (L : σ → List α → List β → Prop) : Prop where
  valid {s : σ} (a : α) : Valid s → Valid (M.step s a)
  absorbing {s : σ} : Final s → M.Absorbing s
  nil {s : σ} {o : List β} : L s [] o ↔ Final s ∧ o = []
  cons {s : σ} {a : α} {w : List α} {o : List β} : Valid s → k ≤ w.length →
    (L s (a :: w) o ↔ ¬ Final s ∧ ∃ o', o = M.out s a ++ o' ∧ L (M.step s a) w o')

namespace Residuals

variable {k : Nat} {Valid Final : σ → Prop} {L : σ → List α → List β → Prop}

/-- Validity is kept over a word. -/
theorem valid_run (h : Residuals M k Valid Final L) (hs : Valid s) (w : List α) :
    Valid (M.run s w) := by
  induction w generalizing s with
  | nil => exact hs
  | cons a w ih => exact ih (h.valid a hs)

/-- A final state is never left. -/
theorem final_run (h : Residuals M k Valid Final L) (w : List α) (hs : Final s) :
    Final (M.run s w) := by
  rw [(h.absorbing hs).run w]
  exact hs

/-- What follows a word that has not led to a final state. -/
theorem append (h : Residuals M k Valid Final L) (hs : Valid s) {p r : List α} {o : List β}
    (hp : ∀ q, q <+: p → q ≠ p → ¬ Final (M.run s q)) (hr : k ≤ r.length) :
    L s (p ++ r) o ↔ ∃ o', o = M.output s p ++ o' ∧ L (M.run s p) r o' := by
  induction p generalizing s o with
  | nil => simp
  | cons a p ih =>
    have hopen : ¬ Final s := hp [] List.nil_prefix (List.cons_ne_nil a p).symm
    have hnext : ∀ q, q <+: p → q ≠ p → ¬ Final (M.run (M.step s a) q) := by
      intro q hq hne
      apply hp (a :: q) (List.cons_prefix_cons.mpr ⟨rfl, hq⟩)
      simpa using hne
    have hlen : k ≤ (p ++ r).length := by
      rw [List.length_append]
      exact Nat.le_add_left_of_le hr
    rw [List.cons_append, h.cons hs hlen]
    simp only [ih (h.valid a hs) hnext, run_cons, output_cons, List.append_assoc]
    constructor
    · rintro ⟨-, o', rfl, o'', rfl, hl⟩
      exact ⟨o'', rfl, hl⟩
    · rintro ⟨o', rfl, hl⟩
      exact ⟨hopen, _, rfl, o', rfl, hl⟩

/-- A word of the family leads to a final state and to none before its end. -/
theorem sound (h : Residuals M 0 Valid Final L) (hs : Valid s) {w : List α} {o : List β}
    (hw : L s w o) :
    Final (M.run s w) ∧ o = M.output s w ∧ ∀ q, q <+: w → q ≠ w → ¬ Final (M.run s q) := by
  induction w generalizing s o with
  | nil =>
    obtain ⟨hf, rfl⟩ := h.nil.mp hw
    exact ⟨hf, rfl, fun q hq hne => absurd (List.prefix_nil.mp hq) hne⟩
  | cons a w ih =>
    obtain ⟨hopen, o', rfl, hl⟩ := (h.cons hs (Nat.zero_le _)).mp hw
    obtain ⟨hf, rfl, hbefore⟩ := ih (h.valid a hs) hl
    refine ⟨hf, rfl, fun q hq hne => ?_⟩
    cases q with
    | nil => exact hopen
    | cons b q =>
      obtain ⟨rfl, hrest⟩ := List.cons_prefix_cons.mp hq
      exact hbefore q hrest fun heq => hne (heq ▸ rfl)

/-- The machine ends in a final state exactly if some word at the front of the input is
in the family of the state it started in. -/
theorem accepts_iff (h : Residuals M 0 Valid Final L) (hs : Valid s) (w : List α) :
    Final (M.run s w) ↔ ∃ p o, p <+: w ∧ L s p o := by
  constructor
  · induction w generalizing s with
    | nil =>
      intro hf
      exact ⟨[], [], List.nil_prefix, h.nil.mpr ⟨hf, rfl⟩⟩
    | cons a w ih =>
      intro hf
      by_cases hfinal : Final s
      · exact ⟨[], [], List.nil_prefix, h.nil.mpr ⟨hfinal, rfl⟩⟩
      · obtain ⟨p, o, hp, hl⟩ := ih (h.valid a hs) hf
        refine ⟨a :: p, M.out s a ++ o, List.cons_prefix_cons.mpr ⟨rfl, hp⟩, ?_⟩
        exact (h.cons hs (Nat.zero_le _)).mpr ⟨hfinal, o, rfl, hl⟩
  · rintro ⟨p, o, ⟨r, rfl⟩, hl⟩
    rw [run_append]
    exact h.final_run r (h.sound hs hl).1

end Residuals

end Transducer
