-- SUMMARY: Civil time (integrations/platform/uefi/civil_time.c) counts seconds exactly.
import Mathlib.Order.Monotone.Basic
import Mathlib.Order.SuccPred.IntervalSucc
import Mathlib.Algebra.Order.Ring.Int

/-!
# Civil time

Dates are counted in years that begin in March, and in eras of 400 such years. The functions
compute in 64-bit and unsigned integers, which no date with an `int` year leaves; the month is
kept in 1 to 12, where `m + (m > 2 ? -3 : 9)` counts from March.
-/

structure KlCivil where
  year : Int
  mon : Int
  day : Int
  hour : Int
  min : Int
  sec : Int
deriving DecidableEq, Repr

namespace KlCivil

def daysInMonth (year mon : Int) : Int :=
  if mon < 1 ∨ 12 < mon then 0
  else if mon = 2 then
    if year.tmod 4 = 0 ∧ (year.tmod 100 ≠ 0 ∨ year.tmod 400 = 0) then 29 else 28
  else [31, 28, 31, 30, 31, 30, 31, 31, 30, 31, 30, 31].getD (mon - 1).toNat 0

/-- A date and a time of day of the calendar. -/
structure Valid (c : KlCivil) : Prop where
  mon : 1 ≤ c.mon ∧ c.mon ≤ 12
  day : 1 ≤ c.day ∧ c.day ≤ daysInMonth c.year c.mon
  hour : 0 ≤ c.hour ∧ c.hour ≤ 23
  min : 0 ≤ c.min ∧ c.min ≤ 59
  sec : 0 ≤ c.sec ∧ c.sec ≤ 59

/-- The days since 1970-01-01 in `kl_civil_to_unix`. -/
def days (year m d : Int) : Int :=
  let y := year - if m ≤ 2 then 1 else 0
  let era := (if 0 ≤ y then y else y - 399).tdiv 400
  let yoe := y - era * 400
  let doy := (153 * (m + if 2 < m then -3 else 9) + 2) / 5 + d - 1
  let doe := yoe * 365 + yoe / 4 - yoe / 100 + doy
  era * 146097 + doe - 719468

def civilToUnix (c : KlCivil) : Int :=
  days c.year c.mon c.day * 86400 + c.hour * 3600 + c.min * 60 + c.sec

/-- The conversion of a wider integer to `int`. -/
def toInt (x : Int) : Int := (x + 2147483648) % 4294967296 - 2147483648

/-- The date of a day count, with the year before its conversion to `int`. -/
def ofDays (days : Int) : Int × Int × Int :=
  let z := days + 719468
  let era := (if 0 ≤ z then z else z - 146096).tdiv 146097
  let doe := z - era * 146097
  let yoe := (doe - doe / 1460 + doe / 36524 - doe / 146096) / 365
  let y := yoe + era * 400
  let doy := doe - (365 * yoe + yoe / 4 - yoe / 100)
  let mp := (5 * doy + 2) / 153
  let day := doy - (153 * mp + 2) / 5 + 1
  let mon := if mp < 10 then mp + 3 else mp - 9
  (y + if mon ≤ 2 then 1 else 0, mon, day)

def unixToCivil (unixSec : Int) : KlCivil :=
  let days := unixSec.tdiv 86400
  let rem := unixSec.tmod 86400
  let (rem, days) := if rem < 0 then (rem + 86400, days - 1) else (rem, days)
  let (year, mon, day) := ofDays days
  { year := toInt year, mon, day, hour := rem / 3600, min := rem % 3600 / 60, sec := rem % 60 }

/-! ## The calendar -/

variable {c c' : KlCivil} {mon : Int}

theorem mon_cases (hm : 1 ≤ mon ∧ mon ≤ 12) :
    mon = 1 ∨ mon = 2 ∨ mon = 3 ∨ mon = 4 ∨ mon = 5 ∨ mon = 6 ∨ mon = 7 ∨ mon = 8 ∨ mon = 9 ∨
      mon = 10 ∨ mon = 11 ∨ mon = 12 := by
  omega

/-- The months as the calendar has them. -/
theorem daysInMonth_cases (year : Int) (hm : 1 ≤ mon ∧ mon ≤ 12) :
    (mon = 2 ∧ 4 ∣ year ∧ (¬ 100 ∣ year ∨ 400 ∣ year) ∧ daysInMonth year mon = 29) ∨
    (mon = 2 ∧ ¬ (4 ∣ year ∧ (¬ 100 ∣ year ∨ 400 ∣ year)) ∧ daysInMonth year mon = 28) ∨
    ((mon = 4 ∨ mon = 6 ∨ mon = 9 ∨ mon = 11) ∧ daysInMonth year mon = 30) ∨
    (mon ≠ 2 ∧ mon ≠ 4 ∧ mon ≠ 6 ∧ mon ≠ 9 ∧ mon ≠ 11 ∧ daysInMonth year mon = 31) := by
  obtain rfl | rfl | rfl | rfl | rfl | rfl | rfl | rfl | rfl | rfl | rfl | rfl := mon_cases hm
  case inr.inl =>
    have hdim : daysInMonth year 2 = if 4 ∣ year ∧ (¬ 100 ∣ year ∨ 400 ∣ year) then 29 else 28 := by
      simp [daysInMonth, Int.dvd_iff_tmod_eq_zero]
    rw [hdim]
    split
    · next hleap => exact .inl ⟨rfl, hleap.1, hleap.2, rfl⟩
    · next hleap => exact .inr (.inl ⟨rfl, hleap, rfl⟩)
  all_goals simp [daysInMonth]

/-- The days of the years before `y`, where years begin in March. -/
def years (y : Int) : Int := 365 * y + y / 4 - y / 100 + y / 400

/-- An era has 146097 days. -/
theorem years_era (y era : Int) : years (y + era * 400) = years y + era * 146097 := by
  unfold years
  omega

/-- The divisions by the length of an era round down. -/
theorem tdiv_era (y : Int) : (if 0 ≤ y then y else y - 399).tdiv 400 = y / 400 ∧
    (if 0 ≤ y then y else y - 146096).tdiv 146097 = y / 146097 := by
  have hsign : Int.sign 400 = 1 ∧ Int.sign 146097 = 1 := ⟨rfl, rfl⟩
  simp only [Int.tdiv_eq_ediv, hsign]
  constructor <;> split <;> split <;> omega

/-- The era falls out of the count of days. -/
theorem days_eq (year m d : Int) : days year m d =
    years (year - if m ≤ 2 then 1 else 0) + (153 * (m + if 2 < m then -3 else 9) + 2) / 5 +
    d - 719469 := by
  simp only [days]
  generalize (year - if m ≤ 2 then 1 else 0) = y
  rw [(tdiv_era y).1, years]
  omega

/-- The month behind begins where this one ends. -/
theorem days_next_month (year : Int) (hm : 1 ≤ mon ∧ mon ≤ 12) :
    days (if mon = 12 then year + 1 else year) (if mon = 12 then 1 else mon + 1) 1 =
    days year mon 1 + daysInMonth year mon := by
  have := daysInMonth_cases year hm
  rw [days_eq, days_eq, years, years]
  obtain rfl | rfl | rfl | rfl | rfl | rfl | rfl | rfl | rfl | rfl | rfl | rfl := mon_cases hm
  all_goals
    simp at this ⊢
    omega

/-- The first day of a month, with months counted on from year 0. -/
def first (k : Int) : Int := days (k / 12) (k % 12 + 1) 1

theorem mon_range (k : Int) : 1 ≤ k % 12 + 1 ∧ k % 12 + 1 ≤ 12 := by
  omega

/-- A month is followed by the next. -/
theorem first_succ (k : Int) : first (k + 1) = first k + daysInMonth (k / 12) (k % 12 + 1) := by
  have hnext := days_next_month (k / 12) (mon_range k)
  rw [first, first, ← hnext]
  split
  · rw [show (k + 1) / 12 = k / 12 + 1 by omega, show (k + 1) % 12 + 1 = 1 by omega]
  · rw [show (k + 1) / 12 = k / 12 by omega, show (k + 1) % 12 + 1 = k % 12 + 1 + 1 by omega]

theorem first_lt_first {j k : Int} : first j < first k ↔ j < k := by
  refine (strictMono_int_of_lt_succ fun k => ?_).lt_iff_lt
  have := daysInMonth_cases (k / 12) (mon_range k)
  rw [first_succ]
  omega

/-- The number of a month. -/
def month (c : KlCivil) : Int := 12 * c.year + c.mon - 1

theorem Valid.month_div (h : c.Valid) : c.month / 12 = c.year ∧ c.month % 12 + 1 = c.mon := by
  have := h.mon
  unfold month
  omega

theorem days_day (year mon day : Int) : days year mon day = days year mon 1 + (day - 1) := by
  simp only [days]
  omega

/-- A date is the first day of its month and the days behind it. -/
theorem Valid.days_eq_first (h : c.Valid) :
    days c.year c.mon c.day = first c.month + (c.day - 1) := by
  obtain ⟨hyear, hmon⟩ := h.month_div
  rw [first, hyear, hmon, ← days_day]

/-- A date lies in its month. -/
theorem Valid.lt_first_succ (h : c.Valid) :
    first c.month ≤ days c.year c.mon c.day ∧ days c.year c.mon c.day < first (c.month + 1) := by
  have := h.day
  rw [first_succ, h.month_div.1, h.month_div.2, h.days_eq_first]
  omega

/-- Every day of a month comes before those of later months. -/
theorem Valid.lt_next_month (h : c.Valid) (hlt : c.month < c'.month) :
    days c.year c.mon c.day < first c'.month :=
  h.lt_first_succ.2.trans_le (Int.not_lt.mp fun h' => Int.not_lt.mpr hlt (first_lt_first.mp h'))

def fields (c : KlCivil) : List Int := [c.year, c.mon, c.day, c.hour, c.min, c.sec]

/-- The count follows the order of the calendar. -/
theorem civilToUnix_lt (h : c.Valid) (h' : c'.Valid) (hlt : c.fields < c'.fields) :
    civilToUnix c < civilToUnix c' := by
  have hh := h.hour; have hm := h.min; have hs := h.sec
  have hh' := h'.hour; have hm' := h'.min; have hs' := h'.sec
  have hmon := h.mon; have hmon' := h'.mon
  have hday := h'.days_eq_first; have hday' := h'.day
  simp only [fields, List.cons_lt_cons_iff, List.lt_irrefl, and_false, or_false] at hlt
  unfold civilToUnix
  obtain hk | hk : c.month < c'.month ∨ c.month = c'.month := by
    unfold month
    omega
  · have := h.lt_next_month hk
    omega
  · have := h.days_eq_first
    rw [hk] at this
    unfold month at hk
    omega

/-- The year of an era, found from the day of the era. -/
theorem yoe_spec {doe yoe : Int} (h0 : 0 ≤ doe) (h1 : doe < 146097)
    (hy : yoe = (doe - doe / 1460 + doe / 36524 - doe / 146096) / 365) :
    0 ≤ yoe ∧ yoe ≤ 399 ∧ years yoe ≤ doe ∧ doe < years (yoe + 1) := by
  unfold years
  obtain rfl | hlast : doe = 146096 ∨ doe / 146096 = 0 := by omega
  · subst hy
    decide
  rw [hlast] at hy
  have hd : doe / 36524 = 0 ∨ doe / 36524 = 1 ∨ doe / 36524 = 2 ∨ doe / 36524 = 3 := by omega
  have hg : yoe / 100 = doe / 36524 := by
    obtain h | h | h | h := hd <;> rw [h] at hy ⊢ <;> omega
  have hf : yoe / 4 ≤ doe / 1460 := by omega
  have hf' : doe / 1460 ≤ (yoe + 1) / 4 := by omega
  refine ⟨by omega, by omega, by omega, ?_⟩
  -- the last year of a century is the one that may lack its leap day
  obtain hsame | hcentury : (yoe + 1) / 100 = yoe / 100 ∨ yoe = 100 * (yoe / 100) + 99 := by omega
  · omega
  · clear hf hf' hy
    omega

/-- The first day of the month `mp` of a year that begins in March. -/
theorem first_march (y : Int) {mp : Int} (h : 0 ≤ mp ∧ mp ≤ 11) :
    first (12 * y + mp + 2) = years y + (153 * mp + 2) / 5 - 719468 := by
  rw [first, days_eq]
  obtain hm | hm : mp < 10 ∨ 10 ≤ mp := by omega
  · rw [show (12 * y + mp + 2) / 12 = y by omega, show (12 * y + mp + 2) % 12 + 1 = mp + 3 by omega,
      if_neg (by omega), if_pos (by omega), Int.sub_zero]
    omega
  · rw [show (12 * y + mp + 2) / 12 = y + 1 by omega, show (12 * y + mp + 2) % 12 + 1 =
      mp - 9 by omega, if_pos (by omega), if_neg (by omega), Int.add_sub_cancel]
    omega

/-- The date of a day count is found in the month that has the day. -/
theorem ofDays_spec (z : Int) : ∃ k, ofDays z = (k / 12, k % 12 + 1, z - first k + 1) ∧
    first k ≤ z ∧ z < first (k + 1) := by
  simp only [ofDays, (tdiv_era _).2]
  generalize hera : (z + 719468) / 146097 = era
  generalize hdoe : z + 719468 - era * 146097 = doe
  obtain ⟨hlow, hhigh, hfrom, hto⟩ := yoe_spec (show 0 ≤ doe by omega) (by omega) rfl
  generalize (doe - doe / 1460 + doe / 36524 - doe / 146096) / 365 = yoe at hlow hhigh hfrom hto ⊢
  have hyears : years yoe = 365 * yoe + yoe / 4 - yoe / 100 := by
    unfold years
    omega
  have hthis := years_era yoe era
  have hnext := years_era (yoe + 1) era
  rw [Int.add_right_comm] at hnext
  rw [← hyears]
  generalize yoe + era * 400 = y at hthis hnext ⊢
  generalize hdoy : doe - years yoe = doy
  generalize hmp : (5 * doy + 2) / 153 = mp
  have hlength : years (y + 1) ≤ years y + 366 := by
    unfold years
    omega
  have hrange : 0 ≤ mp ∧ mp ≤ 11 := by omega
  have hfirst := first_march y hrange
  refine ⟨12 * y + mp + 2, ?_, by omega, ?_⟩
  · rw [hfirst]
    split <;> simp only [Prod.mk.injEq] <;> split <;> omega
  · obtain hm | rfl : mp ≤ 10 ∨ mp = 11 := by omega
    · have hafter := first_march y (show 0 ≤ mp + 1 ∧ mp + 1 ≤ 11 by omega)
      rw [show 12 * y + mp + 2 + 1 = 12 * y + (mp + 1) + 2 by omega, hafter]
      omega
    · have hafter := first_march (y + 1) (show (0 : Int) ≤ 0 ∧ (0 : Int) ≤ 11 by decide)
      rw [show 12 * y + 11 + 2 + 1 = 12 * (y + 1) + 0 + 2 by omega, hafter]
      omega

/-- The date of a count of days is the one it was computed from. -/
theorem ofDays_days (h : c.Valid) : ofDays (days c.year c.mon c.day) = (c.year, c.mon, c.day) := by
  obtain ⟨k, heq, hle, hlt⟩ := ofDays_spec (days c.year c.mon c.day)
  obtain ⟨hle', hlt'⟩ := h.lt_first_succ
  have hk : k = c.month := by
    have h₁ := first_lt_first.mp (hle.trans_lt hlt')
    have h₂ := first_lt_first.mp (hle'.trans_lt hlt)
    omega
  rw [heq, hk, h.month_div.1, h.month_div.2, h.days_eq_first, add_sub_cancel_left,
    Int.sub_add_cancel]

/-- Both divisions by the length of a day round down. -/
theorem unixToCivil_eq (t : Int) : unixToCivil t =
    let (year, mon, day) := ofDays (t / 86400)
    { year := toInt year, mon, day, hour := t % 86400 / 3600, min := t % 86400 % 3600 / 60,
      sec := t % 86400 % 60 } := by
  have hsign : Int.sign 86400 = 1 := rfl
  have hdiv : (if t.tmod 86400 < 0 then (t.tmod 86400 + 86400, t.tdiv 86400 - 1) else (t.tmod 86400,
      t.tdiv 86400)) = (t % 86400, t / 86400) := by
    rw [Int.tdiv_eq_ediv, Int.tmod_eq_emod, hsign]
    split <;> split <;> simp only [Prod.mk.injEq] <;> omega
  simp only [unixToCivil, hdiv]

/-- The day after. -/
def nextDay (c : KlCivil) : KlCivil :=
  if c.day < daysInMonth c.year c.mon then { c with day := c.day + 1 }
  else if c.mon = 12 then { c with year := c.year + 1, mon := 1, day := 1 }
  else { c with mon := c.mon + 1, day := 1 }

/-- The years of an `int`. -/
def Fits (year : Int) : Prop := -2147483648 ≤ year ∧ year < 2147483648

theorem toInt_eq {year : Int} (h : Fits year) : toInt year = year := by
  unfold toInt
  unfold Fits at h
  omega

/-- The first and the last second of these years. -/
def firstSecond : KlCivil := ⟨-2147483648, 1, 1, 0, 0, 0⟩

def lastSecond : KlCivil := ⟨2147483647, 12, 31, 23, 59, 59⟩

/-- The year that is found for a second between them is one of these years. -/
theorem fits_of_between {t k : Int} (hfrom : civilToUnix firstSecond ≤ t)
    (hto : t ≤ civilToUnix lastSecond) (hle : first k ≤ t / 86400)
    (hlt : t / 86400 < first (k + 1)) : Fits (k / 12) := by
  have hmin : civilToUnix firstSecond = first (12 * -2147483648) * 86400 := by decide
  have hmax : civilToUnix lastSecond = first (12 * 2147483648) * 86400 - 1 := by decide
  have hlow : 12 * -2147483648 < k + 1 := first_lt_first.mp (by omega)
  have hhigh : k < 12 * 2147483648 := first_lt_first.mp (by omega)
  unfold Fits
  omega

theorem civilToUnix_unixToCivil {t : Int} (hfrom : civilToUnix firstSecond ≤ t)
    (hto : t ≤ civilToUnix lastSecond) :
    (unixToCivil t).Valid ∧ civilToUnix (unixToCivil t) = t := by
  obtain ⟨k, heq, hle, hlt⟩ := ofDays_spec (t / 86400)
  have hc := unixToCivil_eq t
  simp only [heq, toInt_eq (fits_of_between hfrom hto hle hlt)] at hc
  have hvalid : (unixToCivil t).Valid := by
    rw [first_succ] at hlt
    rw [hc]
    constructor <;> dsimp only <;> omega
  have hday := hvalid.days_eq_first
  refine ⟨hvalid, ?_⟩
  rw [civilToUnix, hday, hc]
  simp only [month]
  rw [show 12 * (k / 12) + (k % 12 + 1) - 1 = k by omega]
  omega

theorem unixToCivil_civilToUnix (h : c.Valid) (hfits : Fits c.year) :
    unixToCivil (civilToUnix c) = c := by
  have hh := h.hour; have hm := h.min; have hs := h.sec
  have hdiv : civilToUnix c / 86400 = days c.year c.mon c.day := by
    unfold civilToUnix
    omega
  have hmod : civilToUnix c % 86400 = c.hour * 3600 + c.min * 60 + c.sec := by
    unfold civilToUnix
    omega
  simp only [unixToCivil_eq, hdiv, hmod, ofDays_days h, toInt_eq hfits]
  cases c
  simp only [mk.injEq, true_and] at hh hm hs ⊢
  omega

theorem civilToUnix_range (h : c.Valid) (hfits : Fits c.year) :
    -9223372036854775808 ≤ civilToUnix c ∧ civilToUnix c < 9223372036854775808 := by
  have hmon := h.mon; have hday := h.day; have hdim := daysInMonth_cases c.year hmon
  have hh := h.hour; have hm := h.min; have hs := h.sec
  unfold Fits at hfits
  rw [civilToUnix, days_eq, years]
  split <;> split <;> omega

/-- A day has 86400 seconds, wherever the calendar turns. -/
theorem civilToUnix_nextDay (h : c.Valid) : civilToUnix c.nextDay = civilToUnix c + 86400 := by
  have hnext := days_next_month c.year h.mon
  have hday := days_day c.year c.mon c.day
  have hdim := h.day
  have hafter := days_day c.year c.mon (c.day + 1)
  unfold nextDay civilToUnix
  split
  · dsimp only
    omega
  · split at hnext
    · next hlast =>
      rw [if_pos hlast]
      dsimp only
      omega
    · next hlast =>
      rw [if_neg hlast]
      dsimp only
      omega

/-- The conversions are inverse to each other, and the count is ordered as the calendar is, a day
being 86400 seconds. -/
theorem civil_exact :
    (∀ t, civilToUnix firstSecond ≤ t → t ≤ civilToUnix lastSecond →
      (unixToCivil t).Valid ∧ civilToUnix (unixToCivil t) = t) ∧
    (∀ c : KlCivil, c.Valid → Fits c.year → unixToCivil (civilToUnix c) = c ∧
      -9223372036854775808 ≤ civilToUnix c ∧ civilToUnix c < 9223372036854775808) ∧
    (∀ c c' : KlCivil, c.Valid → c'.Valid → c.fields < c'.fields → civilToUnix c < civilToUnix c') ∧
    ∀ c : KlCivil, c.Valid → civilToUnix c.nextDay = civilToUnix c + 86400 :=
  ⟨fun _ => civilToUnix_unixToCivil, fun _ h hfits =>
    ⟨unixToCivil_civilToUnix h hfits, civilToUnix_range h hfits⟩,
    fun _ _ => civilToUnix_lt, fun _ => civilToUnix_nextDay⟩

/-- The leap day of a century year. -/
theorem civil_exact_leap_day :
    unixToCivil 951782400 = ⟨2000, 2, 29, 0, 0, 0⟩ ∧
      (unixToCivil 951782400).Valid ∧ civilToUnix (unixToCivil 951782400) = 951782400 :=
  ⟨by decide, civil_exact.1 951782400 (by decide) (by decide)⟩

end KlCivil
