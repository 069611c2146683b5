import Mathlib.Algebra.Order.Ring.Int
import Mathlib.Tactic.Ring

/-!
# The proleptic Gregorian calendar

Days since 1970-01-01 to civil dates and back, over all of `ℤ`. Years are counted
from March inside (so the leap day is the last day), in eras of 400 years of
146097 days.

* `days_civil`: `daysFromCivil` inverts `civilFromDays`.
* `civil_bounds`: month and day of a civil date are in range.
* `months_mono`, `day_lt`: civil dates are ordered as the days are.
-/

namespace SsdCache.Civil

/-- A civil date. -/
structure Date where
  year : ℤ
  month : ℤ
  day : ℤ
  deriving DecidableEq, Repr

/-- The era of a day. -/
def era (z : ℤ) : ℤ := (z + 719468) / 146097

/-- The day of its era, from 0 to 146096. -/
def dayOfEra (z : ℤ) : ℤ := (z + 719468) % 146097

/-- The century of a day of the era, from 0 to 3 (the last one has a day more). -/
def century (doe : ℤ) : ℤ := min (doe / 36524) 3

/-- The four-year cycle of the century. -/
def fourYears (doe : ℤ) : ℤ := (doe - 36524 * century doe) / 1461

/-- The March year of the era, from 0 to 399 (a leap day belongs to the year it ends). -/
def yearOfEra (doe : ℤ) : ℤ :=
  100 * century doe + 4 * fourYears doe +
    min ((doe - 36524 * century doe - 1461 * fourYears doe) / 365) 3

/-- The day of the era on which March year `yoe` begins. -/
def yearStart (yoe : ℤ) : ℤ := 365 * yoe + yoe / 4 - yoe / 100

/-- The day of its March year, from 0 to 365. -/
def dayOfYear (z : ℤ) : ℤ := dayOfEra z - yearStart (yearOfEra (dayOfEra z))

/-- The month counted from March, from 0 to 11, of a day of the March year. -/
def marchMonth (doy : ℤ) : ℤ := (5 * doy + 2) / 153

/-- The day of the March year on which month `mp` begins. -/
def monthStart (mp : ℤ) : ℤ := (153 * mp + 2) / 5

/-- The months from March of year 0 to the month of day `z`. -/
def months (z : ℤ) : ℤ :=
  12 * (400 * era z + yearOfEra (dayOfEra z)) + marchMonth (dayOfYear z)

/-- The day of the month, from 1. -/
def dayOfMonth (z : ℤ) : ℤ := dayOfYear z - monthStart (marchMonth (dayOfYear z)) + 1

/-- The civil date of a day counted from 1970-01-01. -/
def civilFromDays (z : ℤ) : Date :=
  ⟨(months z + 2) / 12, (months z + 2) % 12 + 1, dayOfMonth z⟩

/-- The day, counted from 1970-01-01, of a civil date. -/
def daysFromCivil (y m d : ℤ) : ℤ :=
  let n := 12 * y + m - 3
  n / 12 / 400 * 146097 + yearStart (n / 12 % 400) + monthStart (n % 12) + d - 1 - 719468

theorem dayOfEra_bounds (z : ℤ) : 0 ≤ dayOfEra z ∧ dayOfEra z ≤ 146096 := by
  unfold dayOfEra; omega

theorem yearOfEra_bounds {doe : ℤ} (h0 : 0 ≤ doe) (h1 : doe ≤ 146096) :
    0 ≤ yearOfEra doe ∧ yearOfEra doe ≤ 399 := by
  unfold yearOfEra fourYears century; omega

/-- A year as centuries, four-year cycles and years: where it begins. -/
theorem yearStart_split {c q y : ℤ} (hq : 0 ≤ q) (hq' : q ≤ 24) (hy : 0 ≤ y) (hy' : y ≤ 3) :
    yearStart (100 * c + 4 * q + y) = 36524 * c + 1461 * q + 365 * y := by
  have h4 : (100 * c + 4 * q + y) / 4 = 25 * c + q := by omega
  have h100 : (100 * c + 4 * q + y) / 100 = c := by omega
  unfold yearStart
  rw [h4, h100]
  ring

/-- The decomposition of a day of the era; only a fourth year has a day 365, and not
the last one of the first three centuries. -/
theorem yearOfEra_split {doe : ℤ} (h0 : 0 ≤ doe) (h1 : doe ≤ 146096) :
    ∃ c q y d, yearOfEra doe = 100 * c + 4 * q + y ∧ doe = 36524 * c + 1461 * q + 365 * y + d ∧
      0 ≤ c ∧ c ≤ 3 ∧ 0 ≤ q ∧ q ≤ 24 ∧ 0 ≤ y ∧ y ≤ 3 ∧ 0 ≤ d ∧ d ≤ 365 ∧
      (d = 365 → y = 3 ∧ (q = 24 → c = 3)) := by
  refine ⟨century doe, fourYears doe,
    min ((doe - 36524 * century doe - 1461 * fourYears doe) / 365) 3, _, rfl,
    (add_sub_cancel _ _).symm, ?_⟩
  unfold fourYears century
  omega

/-- A day of the era is not before its year, and less than 366 days after its start. -/
theorem yearStart_le {doe : ℤ} (h0 : 0 ≤ doe) (h1 : doe ≤ 146096) :
    yearStart (yearOfEra doe) ≤ doe ∧ doe - yearStart (yearOfEra doe) ≤ 365 := by
  obtain ⟨c, q, y, d, hy, hd, hb⟩ := yearOfEra_split h0 h1
  rw [hy, yearStart_split (by omega) (by omega) (by omega) (by omega)]
  omega

/-- A day of the era is before the next year. -/
theorem lt_yearStart {doe : ℤ} (h0 : 0 ≤ doe) (h1 : doe ≤ 146096) (h2 : yearOfEra doe ≤ 398) :
    doe < yearStart (yearOfEra doe + 1) := by
  obtain ⟨c, q, y, d, hy, hd, hb⟩ := yearOfEra_split h0 h1
  rw [hy] at h2 ⊢
  by_cases hy3 : y = 3
  · by_cases hq : q = 24
    · -- the next year begins the next century
      have hc := yearStart_split (c := c + 1) (q := 0) (y := 0) (by omega) (by omega) le_rfl (by omega)
      rw [show 100 * c + 4 * q + y + 1 = 100 * (c + 1) + 4 * 0 + 0 by omega, hc]
      omega
    · -- it begins the next four-year cycle
      rw [show 100 * c + 4 * q + y + 1 = 100 * c + 4 * (q + 1) + 0 by omega,
        yearStart_split (by omega) (by omega) le_rfl (by omega)]
      omega
  · rw [show 100 * c + 4 * q + y + 1 = 100 * c + 4 * q + (y + 1) by omega,
      yearStart_split (by omega) (by omega) (by omega) (by omega)]
    omega

theorem yearStart_mono {a b : ℤ} (h : a ≤ b) : yearStart a ≤ yearStart b := by
  unfold yearStart; omega

theorem yearOfEra_mono {a b : ℤ} (h0 : 0 ≤ a) (hab : a ≤ b) (h1 : b ≤ 146096) :
    yearOfEra a ≤ yearOfEra b := by
  by_contra hlt
  push Not at hlt
  have hya := (yearOfEra_bounds h0 (le_trans hab h1)).2
  have hb := lt_yearStart (le_trans h0 hab) h1 (show yearOfEra b ≤ 398 by omega)
  have ha := (yearStart_le h0 (le_trans hab h1)).1
  have := yearStart_mono (show yearOfEra b + 1 ≤ yearOfEra a by omega)
  omega

theorem dayOfYear_bounds (z : ℤ) : 0 ≤ dayOfYear z ∧ dayOfYear z ≤ 365 := by
  obtain ⟨h0, h1⟩ := dayOfEra_bounds z
  have := yearStart_le h0 h1
  unfold dayOfYear; omega

theorem marchMonth_bounds {doy : ℤ} (h0 : 0 ≤ doy) (h1 : doy ≤ 365) :
    0 ≤ marchMonth doy ∧ marchMonth doy ≤ 11 := by
  unfold marchMonth; omega

theorem marchMonth_mono {a b : ℤ} (h : a ≤ b) : marchMonth a ≤ marchMonth b := by
  unfold marchMonth; omega

theorem monthStart_le (doy : ℤ) :
    monthStart (marchMonth doy) ≤ doy ∧ doy - monthStart (marchMonth doy) ≤ 30 := by
  unfold marchMonth monthStart; omega

/-- Month and day are in range. -/
theorem civil_bounds (z : ℤ) : 1 ≤ (civilFromDays z).month ∧ (civilFromDays z).month ≤ 12 ∧
    1 ≤ (civilFromDays z).day ∧ (civilFromDays z).day ≤ 31 := by
  have := monthStart_le (dayOfYear z)
  simp only [civilFromDays, dayOfMonth]
  omega

/-- **`daysFromCivil` inverts `civilFromDays`.** -/
theorem days_civil (z : ℤ) :
    daysFromCivil (civilFromDays z).year (civilFromDays z).month (civilFromDays z).day = z := by
  obtain ⟨e0, e1⟩ := dayOfEra_bounds z
  obtain ⟨y0, y1⟩ := yearOfEra_bounds e0 e1
  obtain ⟨d0, d1⟩ := dayOfYear_bounds z
  obtain ⟨m0, m1⟩ := marchMonth_bounds d0 d1
  -- the March year and the month are read back from the months
  have hn : 12 * ((months z + 2) / 12) + ((months z + 2) % 12 + 1) - 3 = months z := by omega
  have hyear : months z / 12 = 400 * era z + yearOfEra (dayOfEra z) := by unfold months; omega
  have hmonth : months z % 12 = marchMonth (dayOfYear z) := by unfold months; omega
  have hera : (400 * era z + yearOfEra (dayOfEra z)) / 400 = era z := by omega
  have hyoe : (400 * era z + yearOfEra (dayOfEra z)) % 400 = yearOfEra (dayOfEra z) := by omega
  simp only [daysFromCivil, civilFromDays, hn, hyear, hmonth, hera, hyoe, dayOfMonth]
  simp only [dayOfYear, dayOfEra, era]
  omega

/-- Months grow with the days. -/
theorem months_mono {a b : ℤ} (h : a ≤ b) : months a ≤ months b := by
  obtain ⟨a0, a1⟩ := dayOfEra_bounds a
  obtain ⟨b0, b1⟩ := dayOfEra_bounds b
  have ya := yearOfEra_bounds a0 a1
  have yb := yearOfEra_bounds b0 b1
  have ma := marchMonth_bounds (dayOfYear_bounds a).1 (dayOfYear_bounds a).2
  have mb := marchMonth_bounds (dayOfYear_bounds b).1 (dayOfYear_bounds b).2
  have hera : era a ≤ era b := by unfold era; omega
  rcases hera.lt_or_eq with hlt | heq
  · unfold months; omega
  -- within an era the years grow with the days
  have hday : dayOfEra a ≤ dayOfEra b := by unfold era dayOfEra at *; omega
  rcases (yearOfEra_mono a0 hday b1).lt_or_eq with hlt | hyear
  · unfold months; omega
  -- and within a year the months
  have hdoy : dayOfYear a ≤ dayOfYear b := by
    unfold dayOfYear
    rw [hyear]
    omega
  have hm : marchMonth (dayOfYear a) ≤ marchMonth (dayOfYear b) := marchMonth_mono hdoy
  unfold months
  omega

/-- **Within a month, days of the month grow with the days.** -/
theorem day_lt {a b : ℤ} (h : a < b) (hm : months a = months b) : dayOfMonth a < dayOfMonth b := by
  obtain ⟨a0, a1⟩ := dayOfEra_bounds a
  obtain ⟨b0, b1⟩ := dayOfEra_bounds b
  have ya := yearOfEra_bounds a0 a1
  have yb := yearOfEra_bounds b0 b1
  have ma := marchMonth_bounds (dayOfYear_bounds a).1 (dayOfYear_bounds a).2
  have mb := marchMonth_bounds (dayOfYear_bounds b).1 (dayOfYear_bounds b).2
  -- equal months are of one era, one year and one month of it
  have hyear : yearOfEra (dayOfEra a) = yearOfEra (dayOfEra b) ∧ era a = era b ∧
      marchMonth (dayOfYear a) = marchMonth (dayOfYear b) := by unfold months at hm; omega
  obtain ⟨hy, he, hmm⟩ := hyear
  have hday : dayOfEra a < dayOfEra b := by unfold era dayOfEra at *; omega
  unfold dayOfMonth
  rw [hmm]
  unfold dayOfYear
  rw [hy]
  omega

end SsdCache.Civil
