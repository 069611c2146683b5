import SsdCache.Spec.Time
import Mathlib.Tactic.NormNum

/-!
# The timestamp text

* `parse_format`: between 1970 and year 9999 the text of a time point reads back as
  the time point floored to seconds.
* `format_le_iff`: there, text order is time order.
-/

namespace SsdCache

open Civil

theorem castSeconds_eq {t : ℤ} (h : 0 ≤ t) : castSeconds t = t / 10000000 := by
  unfold castSeconds ticksPerSecond
  exact Int.tdiv_eq_ediv_of_nonneg h

theorem floor_le {t : ℤ} (h : 0 ≤ t) : floorToSeconds t ≤ t := by
  unfold floorToSeconds
  rw [castSeconds_eq h]
  unfold ticksPerSecond
  omega

theorem lt_floor_add {t : ℤ} (h : 0 ≤ t) : t < floorToSeconds t + ticksPerSecond := by
  unfold floorToSeconds
  rw [castSeconds_eq h]
  unfold ticksPerSecond
  omega

theorem castSeconds_bounds {t : ℤ} (h : InRange t) :
    0 ≤ castSeconds t ∧ castSeconds t < 253402300800 := by
  obtain ⟨h0, h1⟩ := h
  rw [castSeconds_eq h0]
  unfold year10000 ticksPerSecond at h1
  omega

theorem floor_le_floor (t u : ℤ) :
    floorToSeconds t ≤ floorToSeconds u ↔ castSeconds t ≤ castSeconds u := by
  unfold floorToSeconds ticksPerSecond
  omega

theorem floorToSeconds_mono {t u : ℤ} (ht : 0 ≤ t) (h : t ≤ u) :
    floorToSeconds t ≤ floorToSeconds u := by
  rw [floor_le_floor, castSeconds_eq ht, castSeconds_eq (le_trans ht h)]
  omega

theorem floorToSeconds_idem (t : ℤ) : floorToSeconds (floorToSeconds t) = floorToSeconds t := by
  unfold floorToSeconds castSeconds ticksPerSecond
  rw [Int.mul_tdiv_cancel _ (by omega)]

/-- The text has no part of a second. -/
theorem formatUtc_floor (t : ℤ) : formatUtc (floorToSeconds t) = formatUtc t := by
  have hcast : castSeconds (floorToSeconds t) = castSeconds t :=
    Int.mul_tdiv_cancel _ (by decide)
  rw [formatUtc, hcast]
  rfl

theorem InRange.floor {t : ℤ} (h : InRange t) : InRange (floorToSeconds t) := by
  obtain ⟨h0, h1⟩ := castSeconds_bounds h
  unfold InRange floorToSeconds year10000 ticksPerSecond
  omega

/-- In range the sum does not wrap. -/
theorem addSeconds_eq {t : ℤ} {s : ℤ} (h : InRange (t + s * ticksPerSecond)) :
    addSeconds t s = t + s * ticksPerSecond := by
  obtain ⟨h0, h1⟩ := h
  unfold year10000 ticksPerSecond at h1
  unfold addSeconds
  exact Int.bmod_eq_of_le (by omega) (by unfold ticksPerSecond; omega)

/-- The fields of `gmtime` from year 0 on: four digits of year, two of everything else. -/
theorem gmtime_bounds {raw : ℤ} (h0 : -62167219200 ≤ raw) (h1 : raw < 253402300800) :
    (0 ≤ (gmtime raw).tmYear + 1900 ∧ (gmtime raw).tmYear + 1900 < 10000) ∧
    (0 ≤ (gmtime raw).tmMon + 1 ∧ (gmtime raw).tmMon + 1 < 100) ∧
    (0 ≤ (gmtime raw).tmMday ∧ (gmtime raw).tmMday < 100) ∧
    (0 ≤ (gmtime raw).tmHour ∧ (gmtime raw).tmHour < 100) ∧
    (0 ≤ (gmtime raw).tmMin ∧ (gmtime raw).tmMin < 100) ∧
    (0 ≤ (gmtime raw).tmSec ∧ (gmtime raw).tmSec < 100) := by
  have hlo := months_mono (show -719528 ≤ raw / 86400 by omega)
  have hhi := months_mono (show raw / 86400 ≤ 2932896 by omega)
  rw [show months (-719528) = -2 by decide] at hlo
  rw [show months 2932896 = 119997 by decide] at hhi
  have hb := civil_bounds (raw / 86400)
  simp only [gmtime, civilFromDays] at hb ⊢
  omega

theorem printInt_eq {w : ℕ} {n : ℤ} (hw : 0 < w) (h0 : 0 ≤ n) (h1 : n < 10 ^ w) :
    printInt w n = fixed w n.natAbs := by
  unfold printInt
  rw [if_neg (by omega), padded_eq hw]
  exact_mod_cast (by omega : (n.natAbs : ℤ) < 10 ^ w)

/-- `timegm` inverts `gmtime`. -/
theorem timegm_gmtime (raw : ℤ) : timegm (gmtime raw) = raw := by
  have h := days_civil (raw / 86400)
  simp only [timegm, gmtime, sub_add_cancel, h]
  omega

theorem scanInt_fixed {w n : ℕ} (hn : n < 10 ^ (w + 1)) {rest : Text}
    (hr : ∀ c ∈ rest.head?, c.isDigit = false) :
    scanInt (fixed (w + 1) n ++ rest) = some ((n : ℤ), rest) := by
  have hscan : scanDigits 0 (fixed (w + 1) n ++ rest) = (0 * 10 ^ (w + 1) + n, rest) :=
    scan_fixed hr (w + 1) hn
  -- the text begins with a digit, so neither white space nor a sign is skipped
  obtain ⟨d, tail, hd, htail⟩ : ∃ d tail, d < 10 ∧ fixed (w + 1) n ++ rest = digit d :: tail := by
    have hlen : ∀ v m, ∃ d tail, d < 10 ∧ fixed (v + 1) m = digit d :: tail := by
      intro v
      induction v with
      | zero => exact fun m => ⟨m % 10, [], Nat.mod_lt m (by omega), rfl⟩
      | succ v ih =>
        intro m
        obtain ⟨d, tail, hd, ht⟩ := ih (m / 10)
        exact ⟨d, tail ++ [digit (m % 10)], hd, by rw [fixed, ht]; rfl⟩
    obtain ⟨d, tail, hd, ht⟩ := hlen w n
    exact ⟨d, tail ++ rest, hd, by rw [ht]; rfl⟩
  rw [htail] at hscan ⊢
  unfold scanInt
  interval_cases d <;> simp_all [digit, List.dropWhile]

/-- The text of a broken-down time whose fields fit their width. -/
def fixedUtc (utc : Tm) : Text :=
  fixed 4 (utc.tmYear + 1900).natAbs ++ '-' :: (fixed 2 (utc.tmMon + 1).natAbs ++ '-' ::
    (fixed 2 utc.tmMday.natAbs ++ 'T' :: (fixed 2 utc.tmHour.natAbs ++ ':' ::
      (fixed 2 utc.tmMin.natAbs ++ ':' :: (fixed 2 utc.tmSec.natAbs ++ ['Z'])))))

theorem formatUtc_eq {t : ℤ} (h0 : -62167219200 ≤ castSeconds t)
    (h1 : castSeconds t < 253402300800) : formatUtc t = fixedUtc (gmtime (castSeconds t)) := by
  obtain ⟨hy, hm, hd, hh, hmi, hs⟩ := gmtime_bounds h0 h1
  simp only [formatUtc, printUtc, fixedUtc]
  rw [printInt_eq (by omega) hy.1 (by omega), printInt_eq (by omega) hm.1 (by omega),
    printInt_eq (by omega) hd.1 (by omega), printInt_eq (by omega) hh.1 (by omega),
    printInt_eq (by omega) hmi.1 (by omega), printInt_eq (by omega) hs.1 (by omega)]

theorem scanUtc_fixed {raw : ℤ} (h0 : 0 ≤ raw) (h1 : raw < 253402300800) :
    scanUtc (fixedUtc (gmtime raw)) = some (gmtime raw) := by
  obtain ⟨hy, hm, hd, hh, hmi, hs⟩ := gmtime_bounds (by omega) h1
  set utc := gmtime raw
  have scan2 : ∀ {n : ℤ} (c : Char) (rest : Text), 0 ≤ n → n < 100 → c.isDigit = false →
      scanInt (fixed 2 n.natAbs ++ c :: rest) = some (n, c :: rest) := by
    intro n c rest hn0 hn1 hc
    rw [scanInt_fixed (by omega) (by simpa using hc), Int.natAbs_of_nonneg hn0]
  have scan4 : ∀ rest : Text, scanInt (fixed 4 (utc.tmYear + 1900).natAbs ++ '-' :: rest) =
      some (utc.tmYear + 1900, '-' :: rest) := by
    intro rest
    rw [scanInt_fixed (by omega) (by simp), Int.natAbs_of_nonneg hy.1]
  simp only [scanUtc, fixedUtc, scan4, scanChar, scan2 '-' _ hm.1 hm.2 rfl, scan2 'T' _ hd.1 hd.2 rfl,
    scan2 ':' _ hh.1 hh.2 rfl, scan2 ':' _ hmi.1 hmi.2 rfl, scan2 'Z' _ hs.1 hs.2 rfl,
    Option.bind_eq_bind, Option.bind_some, if_true, Option.pure_def, add_sub_cancel_right]

/-- **The text reads back as the time point floored to seconds.** -/
theorem parse_format {t : ℤ} (h : InRange t) : parseUtc (formatUtc t) = some (floorToSeconds t) := by
  obtain ⟨h0, h1⟩ := castSeconds_bounds h
  rw [formatUtc_eq (by omega) h1, parseUtc, scanUtc_fixed h0 h1, Option.bind_some, timegm_gmtime,
    fromTimeT, if_neg (by omega), floorToSeconds]

/-- Later seconds have greater text. -/
theorem fixedUtc_lt {a b : ℤ} (h0 : -62167219200 ≤ a) (hab : a < b) (h1 : b < 253402300800) :
    fixedUtc (gmtime a) < fixedUtc (gmtime b) := by
  obtain ⟨ya, ma, da, ha, mia, sa⟩ := gmtime_bounds h0 (by omega)
  obtain ⟨yb, mb, db, hb, mib, sb⟩ := gmtime_bounds (show -62167219200 ≤ b by omega) h1
  -- the first field that differs is smaller
  have field : ∀ {w : ℕ} {m n : ℤ} (x y : Text), 0 ≤ m → m < n → n < 10 ^ w →
      fixed w m.natAbs ++ x < fixed w n.natAbs ++ y := by
    intro w m n x y hm hmn hn
    have hn' : n.natAbs < 10 ^ w := by
      exact_mod_cast (by omega : (n.natAbs : ℤ) < 10 ^ w)
    exact append_lt x y (by simp) (fixed_lt hn' (by omega))
  have tail : ∀ (s : Text) (c : Char) {x y : Text}, x < y → s ++ c :: x < s ++ c :: y := by
    intro s c x y hxy
    exact append_lt_right s (List.cons_lt_cons_iff.2 (.inr ⟨rfl, hxy⟩))
  have hmono := months_mono (show a / 86400 ≤ b / 86400 by omega)
  simp only [gmtime, civilFromDays, fixedUtc] at *
  -- the year
  by_cases hy : (months (a / 86400) + 2) / 12 < (months (b / 86400) + 2) / 12
  · exact field _ _ (by omega) (by omega) (by omega)
  rw [show (months (b / 86400) + 2) / 12 = (months (a / 86400) + 2) / 12 by omega]
  apply tail
  -- the month
  by_cases hm : (months (a / 86400) + 2) % 12 < (months (b / 86400) + 2) % 12
  · exact field _ _ (by omega) (by omega) (by omega)
  rw [show (months (b / 86400) + 2) % 12 = (months (a / 86400) + 2) % 12 by omega]
  apply tail
  -- the day, within one month
  have hmeq : months (a / 86400) = months (b / 86400) := by omega
  by_cases hd : a / 86400 < b / 86400
  · have hday : dayOfMonth (a / 86400) < dayOfMonth (b / 86400) := day_lt hd hmeq
    exact field _ _ (by omega) (by omega) (by omega)
  rw [show b / 86400 = a / 86400 by omega]
  apply tail
  -- the hour, minute and second, within one day
  by_cases hh : a % 86400 / 3600 < b % 86400 / 3600
  · exact field _ _ (by omega) (by omega) (by omega)
  rw [show b % 86400 / 3600 = a % 86400 / 3600 by omega]
  apply tail
  by_cases hmi : a % 86400 % 3600 / 60 < b % 86400 % 3600 / 60
  · exact field _ _ (by omega) (by omega) (by omega)
  rw [show b % 86400 % 3600 / 60 = a % 86400 % 3600 / 60 by omega]
  apply tail
  exact field _ _ (by omega) (by omega) (by omega)

/-- **From year 0 on text order is time order**, at whole seconds. -/
theorem format_le_cast {t u : ℤ} (ht : -62167219200 ≤ castSeconds t)
    (ht' : castSeconds t < 253402300800) (hu : -62167219200 ≤ castSeconds u)
    (hu' : castSeconds u < 253402300800) :
    formatUtc t ≤ formatUtc u ↔ castSeconds t ≤ castSeconds u := by
  rw [formatUtc_eq ht ht', formatUtc_eq hu hu']
  constructor
  · intro h
    by_contra hlt
    push Not at hlt
    have htext : fixedUtc (gmtime (castSeconds u)) < fixedUtc (gmtime (castSeconds t)) :=
      fixedUtc_lt hu hlt ht'
    exact absurd htext (not_lt.2 h)
  · intro h
    rcases h.lt_or_eq with h | h
    · exact (fixedUtc_lt ht h hu').le
    · rw [h]

/-- **In range text order is time order.** -/
theorem format_le_iff {t u : ℤ} (ht : InRange t) (hu : InRange u) :
    formatUtc t ≤ formatUtc u ↔ floorToSeconds t ≤ floorToSeconds u := by
  have bt := castSeconds_bounds ht
  have bu := castSeconds_bounds hu
  rw [floor_le_floor, format_le_cast (by omega) bt.2 (by omega) bu.2]

end SsdCache
