-- SUMMARY: The table-driven UTF-8 validator (src/utf8.h) accepts the grammar of RFC 3629.
import Mathlib.Data.List.Forall2

/-!
# UTF-8 validation

The validator runs over two tables, the class of a byte and the next state of a state and a class.
What it is held to is the grammar of UTF-8: a character is one of nine rows of byte ranges. Each
state but the rejection stands for the ranges that are still owed.
-/

namespace Utf8

def KL_UTF8_ACCEPT : Nat := 0
def KL_UTF8_REJECT : Nat := 12

def klUtf8Class : List Nat :=
  List.replicate 128 0 ++ List.replicate 16 1 ++ List.replicate 16 9 ++ List.replicate 32 7 ++
  [8, 8] ++ List.replicate 30 2 ++
  [10, 3, 3, 3, 3, 3, 3, 3, 3, 3, 3, 3, 3, 4, 3, 3, 11, 6, 6, 6, 5, 8, 8, 8, 8, 8, 8, 8, 8, 8, 8, 8]

def klUtf8Trans : List Nat :=
  [ 0, 12, 24, 36, 60, 96, 84, 12, 12, 12, 48, 72, 12, 12, 12, 12, 12, 12, 12, 12, 12, 12, 12, 12,
    12, 0, 12, 12, 12, 12, 12, 0, 12, 0, 12, 12, 12, 24, 12, 12, 12, 12, 12, 24, 12, 24, 12, 12,
    12, 12, 12, 12, 12, 12, 12, 24, 12, 12, 12, 12, 12, 24, 12, 12, 12, 12, 12, 12, 12, 24, 12, 12,
    12, 12, 12, 12, 12, 12, 12, 36, 12, 36, 12, 12, 12, 36, 12, 12, 12, 12, 12, 36, 12, 36, 12, 12,
    12, 36, 12, 12, 12, 12, 12, 12, 12, 12, 12, 12]

/-- The state after one byte. -/
def step (state : Nat) (b : UInt8) : Nat := klUtf8Trans.getD (state + klUtf8Class.getD b.toNat 0) 12

def klUtf8Validate : Nat → List UInt8 → Nat
  | state, [] => state
  | state, b :: bs => if step state b = KL_UTF8_REJECT then KL_UTF8_REJECT
    else klUtf8Validate (step state b) bs

/-! ## The grammar -/

/-- The rows of the grammar, each a list of byte ranges. -/
def rows : List (List (Nat × Nat)) :=
  let tail := (0x80, 0xBF)
  [[(0x00, 0x7F)], [(0xC2, 0xDF), tail], [(0xE0, 0xE0), (0xA0, 0xBF), tail],
    [(0xE1, 0xEC), tail, tail],
    [(0xED, 0xED), (0x80, 0x9F), tail], [(0xEE, 0xEF), tail, tail],
      [(0xF0, 0xF0), (0x90, 0xBF), tail, tail],
    [(0xF1, 0xF3), tail, tail, tail], [(0xF4, 0xF4), (0x80, 0x8F), tail, tail]]

/-- The bytes lie in the ranges, one by one. -/
abbrev Fits : List UInt8 → List (Nat × Nat) → Prop :=
  List.Forall₂ fun b r => r.1 ≤ b.toNat ∧ b.toNat ≤ r.2

inductive WellFormed : List UInt8 → Prop where
  | nil : WellFormed []
  | char {c w : List UInt8} {r : List (Nat × Nat)} :
      r ∈ rows → Fits c r → WellFormed w → WellFormed (c ++ w)

/-! ## What a state owes -/

/-- The states other than the rejection. -/
def live : List Nat := [0, 24, 36, 48, 60, 72, 84, 96]

/-- The ranges that a live state still owes. -/
def owes (s : Nat) : List (Nat × Nat) :=
  let tail := (0x80, 0xBF)
  if s = 24 then [tail] else if s = 36 then [tail, tail] else if s = 48 then [(0xA0, 0xBF), tail]
  else if s = 60 then [(0x80, 0x9F), tail] else if s = 72 then [(0x90, 0xBF), tail, tail]
  else if s = 84 then [tail, tail, tail] else if s = 96 then [(0x80, 0x8F), tail, tail] else []

/-- The rows that a live state goes on with. -/
def next (s : Nat) : List (List (Nat × Nat)) := if s = 0 then rows else [owes s]

def within (b : UInt8) (r : Nat × Nat) : Bool := r.1 ≤ b.toNat && b.toNat ≤ r.2

/-- A byte in the first range of a row goes on to the state that owes the others, and every other
byte is rejected. -/
def Steps (s : Nat) (b : UInt8) : Prop :=
  (step s b = 12 ∨ ∃ r ∈ next s, r.head?.any (within b) ∧ r.tail = owes (step s b)) ∧
    ∀ r ∈ next s, r.head?.any (within b) → step s b ∈ live ∧ r.tail = owes (step s b)

instance (s : Nat) (b : UInt8) : Decidable (Steps s b) := inferInstanceAs (Decidable (_ ∧ _))

variable {s : Nat} {b : UInt8} {w : List UInt8} {r : List (Nat × Nat)}

/-- Both tables, checked for every live state and every byte. -/
theorem steps (hs : s ∈ live) (b : UInt8) : Steps s b := by
  have htable : ∀ s ∈ live, ∀ n < 256, Steps s (UInt8.ofNat n) := by decide +kernel
  simpa using htable s hs b.toNat b.toNat_lt

/-- The rejection is never left. -/
theorem step_reject (b : UInt8) : step 12 b = 12 := by
  have htable : ∀ n < 256, step 12 (UInt8.ofNat n) = 12 := by decide +kernel
  simpa using htable b.toNat b.toNat_lt

theorem step_live (hs : s ∈ live) : step s b = 12 ∨ step s b ∈ live := by
  obtain ⟨h | ⟨r, hr, hb, -⟩, hall⟩ := steps hs b
  · exact .inl h
  · exact .inr (hall r hr hb).1

/-! ## What leads to acceptance -/

/-- Bytes for the ranges, and then characters. -/
def Takes (r : List (Nat × Nat)) (w : List UInt8) : Prop :=
  ∃ c v, w = c ++ v ∧ Fits c r ∧ WellFormed v

theorem takes_nil : Takes [] w ↔ WellFormed w := by
  constructor
  · rintro ⟨c, v, rfl, hc, hv⟩
    cases hc
    exact hv
  · exact fun h => ⟨[], w, rfl, .nil, h⟩

theorem takes_cons (hr : r ≠ []) : Takes r (b :: w) ↔ r.head?.any (within b) ∧ Takes r.tail w := by
  obtain ⟨x, xs, rfl⟩ := List.exists_cons_of_ne_nil hr
  simp only [List.head?_cons, Option.any_some, within, Bool.and_eq_true, decide_eq_true_eq,
    List.tail_cons]
  constructor
  · rintro ⟨c, v, heq, hc, hv⟩
    cases hc with
    | cons hb hc =>
      obtain ⟨rfl, rfl⟩ := List.cons.inj heq
      exact ⟨hb, _, v, rfl, hc, hv⟩
  · rintro ⟨hb, c, v, rfl, hc, hv⟩
    exact ⟨b :: c, v, rfl, .cons hb hc, hv⟩

/-- A live state that owes nothing may start any row. -/
theorem takes_next (hs : s ∈ live) : Takes (owes s) (b :: w) ↔ ∃ r ∈ next s, Takes r (b :: w) := by
  by_cases h : s = 0
  · subst h
    rw [show owes 0 = [] from rfl, takes_nil, next, if_pos rfl]
    constructor
    · intro h
      generalize heq : b :: w = t at h
      cases h with
      | nil => cases heq
      | char hr hc hv => exact ⟨_, hr, _, _, rfl, hc, hv⟩
    · rintro ⟨r, hr, c, v, heq, hc, hv⟩
      rw [heq]
      exact .char hr hc hv
  · simp [next, h]

/-- What a state takes, by its first byte. -/
theorem takes_step (hs : s ∈ live) :
    Takes (owes s) (b :: w) ↔ step s b ≠ 12 ∧ Takes (owes (step s b)) w := by
  have hne : ∀ s ∈ live, ∀ r ∈ next s, r ≠ [] := by decide
  obtain ⟨hex, hall⟩ := steps hs b
  rw [takes_next hs]
  constructor
  · rintro ⟨r, hr, htakes⟩
    obtain ⟨hb, htakes⟩ := (takes_cons (hne s hs r hr)).mp htakes
    obtain ⟨hlive, howes⟩ := hall r hr hb
    exact ⟨fun h => absurd (h ▸ hlive) (by decide), howes ▸ htakes⟩
  · rintro ⟨hstep, htakes⟩
    obtain ⟨r, hr, hb, howes⟩ := hex.resolve_left hstep
    exact ⟨r, hr, (takes_cons (hne s hs r hr)).mpr ⟨hb, howes ▸ htakes⟩⟩

/-! ## Runs -/

theorem validate_reject (w : List UInt8) : klUtf8Validate 12 w = 12 := by
  cases w with
  | nil => rfl
  | cons b w => exact if_pos (step_reject b)

theorem validate_cons (s : Nat) (b : UInt8) (w : List UInt8) :
    klUtf8Validate s (b :: w) = klUtf8Validate (step s b) w := by
  rw [klUtf8Validate]
  split
  · next hreject =>
    rw [hreject]
    exact (validate_reject w).symm
  · rfl

theorem validate_append (s : Nat) (v w : List UInt8) :
    klUtf8Validate s (v ++ w) = klUtf8Validate (klUtf8Validate s v) w := by
  induction v generalizing s with
  | nil => rfl
  | cons b v ih => rw [List.cons_append, validate_cons, validate_cons, ih]

/-- The state carries over from one call to the next. -/
theorem validate_pieces (s : Nat) (pieces : List (List UInt8)) :
    pieces.foldl klUtf8Validate s = klUtf8Validate s pieces.flatten := by
  induction pieces generalizing s with
  | nil => rfl
  | cons v pieces ih => rw [List.foldl_cons, ih, List.flatten_cons, validate_append]

/-- A run ends in a live state or in the rejection. -/
theorem validate_live (hs : s ∈ live) : klUtf8Validate s w = 12 ∨ klUtf8Validate s w ∈ live := by
  induction w generalizing s with
  | nil => exact .inr hs
  | cons b w ih =>
    rw [validate_cons]
    obtain hreject | hlive := step_live (b := b) hs
    · rw [hreject]
      exact .inl (validate_reject w)
    · exact ih hlive

/-- A live state ends in acceptance on the texts that it takes. -/
theorem validate_iff (hs : s ∈ live) : klUtf8Validate s w = 0 ↔ Takes (owes s) w := by
  induction w generalizing s with
  | nil =>
    have hzero : ∀ s ∈ live, owes s = [] → s = 0 := by decide
    constructor
    · rintro rfl
      exact takes_nil.mpr .nil
    · rintro ⟨c, v, heq, hc, -⟩
      obtain ⟨rfl, -⟩ := List.append_eq_nil_iff.mp heq.symm
      exact hzero s hs (List.forall₂_nil_left_iff.mp hc)
  | cons b w ih =>
    rw [validate_cons, takes_step hs]
    obtain hreject | hlive := step_live (b := b) hs
    · rw [hreject, validate_reject]
      simp
    · rw [ih hlive]
      exact ⟨fun h => ⟨fun he => absurd (he ▸ hlive) (by decide), h⟩, And.right⟩

/-- However the bytes are cut, the validator ends in acceptance on the texts of the grammar, in
rejection where no text goes on, and inside its tables. -/
theorem utf8_validates (pieces : List (List UInt8)) :
    let state := pieces.foldl klUtf8Validate KL_UTF8_ACCEPT
    (state = KL_UTF8_ACCEPT ↔ WellFormed pieces.flatten) ∧
    (state = KL_UTF8_REJECT ↔ ∀ t, ¬ WellFormed (pieces.flatten ++ t)) ∧
    ∀ b : UInt8, b.toNat < klUtf8Class.length ∧ state + klUtf8Class.getD b.toNat 0 <
      klUtf8Trans.length := by
  have hstart : 0 ∈ live := by decide
  have haccept : ∀ w, klUtf8Validate KL_UTF8_ACCEPT w = KL_UTF8_ACCEPT ↔ WellFormed w :=
    fun w => (validate_iff hstart).trans takes_nil
  have hends : ∀ s ∈ live, klUtf8Validate s ((owes s).map fun r => UInt8.ofNat r.1) =
      0 := by decide +kernel
  have hclass : klUtf8Class.length = 256 := by decide +kernel
  have hbounds : ∀ s ∈ 12 :: live, ∀ n < 256, s + klUtf8Class.getD n 0 <
      klUtf8Trans.length := by decide +kernel
  have hstate := validate_live (w := pieces.flatten) hstart
  rw [validate_pieces]
  refine ⟨haccept _, ⟨fun hreject t ht => ?_, fun hnone => ?_⟩, fun b => ⟨hclass ▸ b.toNat_lt, ?_⟩⟩
  · rw [← haccept, validate_append, hreject] at ht
    exact absurd ((validate_reject t).symm.trans ht) (by decide)
  · refine hstate.resolve_right fun hlive => ?_
    have hend := hends _ hlive
    rw [← validate_append] at hend
    exact hnone _ ((haccept _).mp hend)
  · exact hbounds _ (List.mem_cons.mpr hstate) b.toNat b.toNat_lt

end Utf8
