import SsdCache.Proof.Sizes

/-!
# Printed sizes

`format_size_bytes` scales a number down and prints hundredths of a unit.

* `scaleValue_spec`: the divisions are exact and stop at the greatest unit that is not above the
  number.
* `format_eq`: what is printed is in documented form (`SizeText`).
* `read_format`: **a printed size is read again**, to within a hundredth of it.
-/

namespace SsdCache.Sizes

open Civil Binary

/-! ## Digits -/

theorem readDigits_append (base : ℕ) (ds es : Text) :
    readDigits base (ds ++ es) = readDigits base ds * base ^ es.length + readDigits base es := by
  unfold readDigits
  rw [List.foldl_append]
  generalize ds.foldl (fun n c => n * base + digitValue c) 0 = n
  induction es using List.reverseRecOn with
  | nil => simp
  | append_singleton es c ih =>
    simp only [List.foldl_append, List.foldl_cons, List.foldl_nil, List.length_append,
      List.length_singleton, ih]
    ring

theorem digitValue_digit {d : ℕ} (h : d < 10) : digitValue (digit d) = d := by
  obtain ⟨hd, hv⟩ := digit_cases h
  rw [digitValue, if_pos hd, hv]
  omega

theorem readDigits_fixed {w n : ℕ} (h : n < 10 ^ w) : readDigits 10 (fixed w n) = n := by
  induction w generalizing n with
  | zero =>
    obtain rfl : n = 0 := by simpa using h
    rfl
  | succ w ih =>
    have hlast : readDigits 10 [digit (n % 10)] = n % 10 := by
      simp [readDigits, digitValue_digit (Nat.mod_lt n (by decide))]
    rw [fixed, readDigits_append, ih (by rw [pow_succ] at h; omega), hlast, List.length_singleton,
      pow_one]
    omega

/-- Without a width there are no zeros in front. -/
theorem padded_zero (n : ℕ) : ∃ w, 0 < w ∧ n < 10 ^ w ∧ padded 0 n = fixed w n := by
  obtain ⟨w, hw, hlt, heq⟩ := unpadded_eq_fixed (Nat.lt_succ_self n)
  refine ⟨w, hw, hlt, ?_⟩
  rw [padded, Nat.zero_sub, List.replicate_zero, List.nil_append]
  exact heq

theorem padded_zero_digits (n : ℕ) : padded 0 n ≠ [] ∧ (∀ c ∈ padded 0 n, c.isDigit = true) ∧
    readDigits 10 (padded 0 n) = n := by
  obtain ⟨w, hw, hlt, heq⟩ := padded_zero n
  rw [heq]
  refine ⟨fun hnil => ?_, fun c hc => isDigit_of_mem_fixed hc, readDigits_fixed hlt⟩
  have hlen := length_fixed w n
  rw [hnil, List.length_nil] at hlen
  omega

/-- Above 1024 a division by 1024 is exact. -/
theorem round_div {x : ℚ} (hx : double.Representable x) (h : 1024 ≤ x) :
    double.round (x / 1024) = x / 1024 := by
  have hn : double.Normal (x / 1024) := normal_of_one_le (by linarith)
  have hscale := hn.round_scale (k := 10) (by decide)
  have hback : x / 1024 * 2 ^ (10 : ℤ) = x := by norm_num
  rw [hback, double.round_eq hx] at hscale
  norm_num at hscale
  linarith

/-- The loop divides as often as it can, up to the last unit. -/
theorem scaleValue_spec (left : ℕ) {value : ℚ} (unit : ℕ) (hv : double.Representable value)
    (hpos : 0 ≤ value) : ∃ k ≤ left, scaleValue left value unit = (value / 1024 ^ k, unit + k) ∧
      (0 < k → 1 ≤ value / 1024 ^ k) ∧ (k < left → value / 1024 ^ k < 1024) := by
  induction left generalizing value unit with
  | zero => exact ⟨0, le_rfl, by simp [scaleValue], by simp, by simp⟩
  | succ left ih =>
    by_cases hge : 1024 ≤ value
    · have hround := round_div hv hge
      have hnext : double.Representable (value / 1024) := by
        rw [← hround]
        exact double.representable_round (by positivity)
      obtain ⟨k, hk, heq, hone, hlt⟩ := ih (unit + 1) hnext (by positivity)
      have hpow : value / 1024 / 1024 ^ k = value / 1024 ^ (k + 1) := by
        rw [div_div, pow_succ']
      rw [hpow] at heq hone hlt
      refine ⟨k + 1, by omega, ?_, fun _ => ?_, fun hlast => hlt (by omega)⟩
      · rw [scaleValue, if_pos hge, hround, heq, Nat.add_assoc, Nat.add_comm 1]
      · rcases Nat.eq_zero_or_pos k with rfl | hk
        · rw [zero_add, pow_one, le_div_iff₀ (by norm_num)]
          linarith
        · exact hone hk
    · refine ⟨0, Nat.zero_le _, ?_, by simp, fun _ => ?_⟩
      · rw [scaleValue, if_neg hge, pow_zero, div_one, add_zero]
      · rw [pow_zero, div_one]
        exact not_le.1 hge

section Format

variable {ctype : CType}

theorem kUnits_letters : ∀ k < 5, wide (kUnits.getD k "") ⊆ wide "BKMGTbkmgt" := by decide

theorem kUnits_upper {k : ℕ} (hk : k < 5) {u : UInt16} (h : u ∈ wide (kUnits.getD k "")) :
    0x41 ≤ u ∧ u ≤ 0x5A := by
  have hall : ∀ k < 5, (wide (kUnits.getD k "")).all fun u => decide (0x41 ≤ u ∧ u ≤ 0x5A) := by
    decide
  exact of_decide_eq_true (List.all_eq_true.1 (hall k hk) u h)

theorem kUnits_multiplier : ∀ k < 5,
    (unitMultiplier (wide (kUnits.getD k ""))).map UInt64.toNat = some (1024 ^ k) := by decide

/-- A printed size is in documented form. -/
def printed (hspace : ctype.iswspace 0x20 = true) (whole : Text) (fraction : Option Text) (k : ℕ)
    (hwhole : ∀ c ∈ whole, c.isDigit = true) (hne : whole ≠ [])
    (hfraction : ∀ ds ∈ fraction, ∀ c ∈ ds, c.isDigit = true) (hk : k < 5) : SizeText ctype where
  before := []
  whole := whole
  fraction := fraction
  between := [0x20]
  unit := wide (kUnits.getD k "")
  after := []
  power := k
  blank u hu := by
    obtain rfl : u = 0x20 := by simpa using hu
    exact ⟨hspace, by decide⟩
  whole_digits := hwhole
  whole_ne := hne
  fraction_digits := hfraction
  unit_letters := kUnits_letters k hk
  unit_eq := by
    have hupper : (wide (kUnits.getD k "")).map ctype.towupper = wide (kUnits.getD k "") := by
      conv_rhs => rw [← List.map_id (wide (kUnits.getD k ""))]
      refine List.map_congr_left fun u hu => ?_
      obtain ⟨hlo, hhi⟩ := kUnits_upper hk hu
      exact ctype.towupper_upper u hlo hhi
    rw [hupper]
    exact kUnits_multiplier k hk

theorem text_printed {hspace : ctype.iswspace 0x20 = true} {whole : Text} {fraction : Option Text}
    {k : ℕ} {hwhole : ∀ c ∈ whole, c.isDigit = true} {hne : whole ≠ []}
    {hfraction : ∀ ds ∈ fraction, ∀ c ∈ ds, c.isDigit = true} {hk : k < 5} :
    (printed hspace whole fraction k hwhole hne hfraction hk).text =
      (numeral whole fraction ++ ' ' :: (kUnits.getD k "").toList).map
        fun c => c.toNat.toUInt16 := by
  rw [List.map_append, List.map_cons]
  simp only [SizeText.text, printed, List.nil_append, List.append_nil, List.singleton_append]
  rfl

theorem hundredths_digits (n : ℕ) : (∀ c ∈ padded 2 (n % 100), c.isDigit = true) ∧
    (padded 2 (n % 100)).length = 2 ∧
    readDigits 10 (padded 0 (n / 100) ++ padded 2 (n % 100)) = n := by
  have hlt : n % 100 < 10 ^ 2 := Nat.mod_lt n (by decide)
  obtain ⟨-, -, hread⟩ := padded_zero_digits (n / 100)
  rw [padded_eq (by decide) hlt]
  refine ⟨fun c hc => isDigit_of_mem_fixed hc, length_fixed 2 _, ?_⟩
  rw [readDigits_append, hread, readDigits_fixed hlt, length_fixed]
  omega

/-- What `format_size_bytes` prints: the number itself below 1024, and above it hundredths of the
greatest unit that is not above the number. -/
theorem format_eq (hspace : ctype.iswspace 0x20 = true) (b : UInt64) :
    ∃ t : SizeText ctype, formatSizeBytes b = t.text ∧ t.power ≤ 4 ∧
      (t.power = 0 → b.toNat < 1024 ∧ t.number = b.toNat) ∧
      (0 < t.power → 1 ≤ double.round b.toNat / 1024 ^ t.power ∧
        (t.power < 4 → double.round b.toNat / 1024 ^ t.power < 1024) ∧
        t.number = (nearest (100 * (double.round b.toNat / 1024 ^ t.power)) : ℚ) / 100) := by
  have hnn : (0 : ℚ) ≤ b.toNat := Nat.cast_nonneg _
  obtain ⟨k, hk, hscale, hone, hlt⟩ := scaleValue_spec 4 0 (double.representable_round hnn)
    (double.round_nonneg _)
  rw [zero_add] at hscale
  rcases Nat.eq_zero_or_pos k with rfl | hpos
  · obtain ⟨hne, hdigits, hread⟩ := padded_zero_digits b.toNat
    refine ⟨printed hspace (padded 0 b.toNat) none 0 hdigits hne (by simp) (by decide), ?_,
      Nat.zero_le 4, fun _ => ⟨?_, ?_⟩, fun h => absurd h (by simp [printed])⟩
    · rw [text_printed, numeral, Option.elim_none, List.append_nil]
      unfold formatSizeBytes
      rw [show kUnits.length - 1 = 4 from rfl, hscale]
      rfl
    · -- a number from 1024 on stays there when it is rounded
      have hsmall := hlt (by decide)
      rw [pow_zero, div_one] at hsmall
      by_contra hge
      have hle := double.le_round (y := b.toNat) (by norm_num) (by exact_mod_cast not_lt.1 hge)
        (representable_natCast (n := 1024) (by decide))
      push_cast at hle
      linarith
    · simp [SizeText.number, numeralValue, printed, hread]
  · obtain ⟨hne, hdigits, -⟩ := padded_zero_digits
      (nearest (100 * (double.round b.toNat / 1024 ^ k)) / 100)
    obtain ⟨hfraction, hlen, hread⟩ := hundredths_digits
      (nearest (100 * (double.round b.toNat / 1024 ^ k)))
    refine ⟨printed hspace _ (some _) k hdigits hne
      (by intro ds hds; obtain rfl := Option.some.inj hds; exact hfraction) (by omega), ?_, hk,
      fun h => absurd h hpos.ne', fun _ => ⟨hone hpos, hlt, ?_⟩⟩
    · rw [text_printed, numeral, Option.elim_some]
      unfold formatSizeBytes
      rw [show kUnits.length - 1 = 4 from rfl, hscale]
      simp only [if_neg hpos.ne', printHundredths]
    · simp only [SizeText.number, numeralValue, printed, Option.getD_some, hread, hlen]
      norm_num

/-- From here on the hundredths of a terabyte round up to the first number of 65 bits. -/
def firstUnreadable : ℕ := 18446744068211993600

theorem round_lt_firstUnreadable {n : ℕ} (h : n < firstUnreadable) :
    double.round n ≤ 18446744068211992576 := by
  have hle : (n : ℚ) ≤ 18446744068211993599 := by exact_mod_cast Nat.le_of_lt_succ h
  refine (double.round_mono (Nat.cast_nonneg n) hle).trans ?_
  decide +kernel

theorem le_round_firstUnreadable {n : ℕ} (h : firstUnreadable ≤ n) :
    18446744068211994624 ≤ double.round n := by
  have hle : (18446744068211993600 : ℚ) ≤ n := by exact_mod_cast h
  refine le_trans ?_ (double.round_mono (by norm_num) hle)
  decide +kernel

/-- A printed number of hundredths is as near as it can be. -/
theorem size_error {t : SizeText ctype} {v : ℚ} (hv : 0 ≤ v)
    (h : t.number = (nearest (100 * (v / 1024 ^ t.power)) : ℚ) / 100) :
    |t.size - v| ≤ 1024 ^ t.power / 200 := by
  have hpow : (0 : ℚ) < 1024 ^ t.power := by positivity
  have herr := nearest_error (q := 100 * (v / 1024 ^ t.power)) (by positivity)
  have hsplit : t.size - v =
      (nearest (100 * (v / 1024 ^ t.power)) - 100 * (v / 1024 ^ t.power)) *
        (1024 ^ t.power / 100) := by
    rw [SizeText.size, h]
    field_simp
  rw [hsplit, abs_mul, abs_of_pos (div_pos hpow (by norm_num))]
  calc _ ≤ 1 / 2 * ((1024 : ℚ) ^ t.power / 100) := mul_le_mul_of_nonneg_right herr (by positivity)
    _ = 1024 ^ t.power / 200 := by ring

theorem unit_le {v : ℚ} {k : ℕ} (hk : 0 < k) (h : 1 ≤ v / 1024 ^ k) :
    (1024 : ℚ) ^ k ≤ v ∧ (1024 : ℚ) ≤ 1024 ^ k := by
  rw [le_div_iff₀ (by positivity), one_mul] at h
  exact ⟨h, le_self_pow₀ (by norm_num) hk.ne'⟩

/-- The printed size, when it is hundredths, is below `2 ^ 64` for the numbers below the first
unreadable one. -/
theorem size_readable {t : SizeText ctype} {b : UInt64} (hb : b.toNat < firstUnreadable)
    (hpower : t.power ≤ 4)
    (hlt : t.power < 4 → double.round b.toNat / 1024 ^ t.power < 1024)
    (hnumber : t.number = (nearest (100 * (double.round b.toNat / 1024 ^ t.power)) : ℚ) / 100) :
    t.size < 18446744073709550592 := by
  have hpow : (0 : ℚ) < 1024 ^ t.power := by positivity
  rcases hpower.lt_or_eq with hsmall | hlast
  · have herr := (abs_le.1 (size_error (double.round_nonneg _) hnumber)).2
    have hv : double.round b.toNat < 1024 * 1024 ^ t.power := (div_lt_iff₀ hpow).1 (hlt hsmall)
    have hmax : (1024 : ℚ) ^ t.power ≤ 1024 ^ 3 := pow_le_pow_right₀ (by norm_num) (by omega)
    norm_num at hmax
    linarith
  · have hround := round_lt_firstUnreadable hb
    have hnear : nearest (100 * (double.round b.toNat / 1024 ^ t.power)) ≤ 1677721599 := by
      apply nearest_le
      · rw [hlast]
        norm_num
        linarith
      · exact mul_nonneg (by norm_num) (div_nonneg (double.round_nonneg _) hpow.le)
    have hle : t.number ≤ 1677721599 / 100 := by
      rw [hnumber]
      exact div_le_div_of_nonneg_right (by exact_mod_cast hnear) (by norm_num)
    rw [SizeText.size, hlast]
    calc t.number * 1024 ^ 4 ≤ 1677721599 / 100 * 1024 ^ 4 :=
          mul_le_mul_of_nonneg_right hle (by norm_num)
      _ < 18446744073709550592 := by norm_num

/-- From the first unreadable number on it is not. -/
theorem size_unreadable {t : SizeText ctype} {b : UInt64} (hb : firstUnreadable ≤ b.toNat)
    (hpower : t.power ≤ 4)
    (hlt : t.power < 4 → double.round b.toNat / 1024 ^ t.power < 1024)
    (hnumber : t.number = (nearest (100 * (double.round b.toNat / 1024 ^ t.power)) : ℚ) / 100) :
    18446744073709550592 ≤ t.size := by
  have hpow : (0 : ℚ) < 1024 ^ t.power := by positivity
  have hround := le_round_firstUnreadable hb
  have hlast : t.power = 4 := by
    by_contra hne
    have hv := (div_lt_iff₀ hpow).1 (hlt (by omega))
    have hmax : (1024 : ℚ) ^ t.power ≤ 1024 ^ 3 := pow_le_pow_right₀ (by norm_num) (by omega)
    norm_num at hmax
    linarith
  have hnear : 1677721600 ≤ nearest (100 * (double.round b.toNat / 1024 ^ t.power)) := by
    apply le_nearest
    · rw [hlast]
      norm_num
      linarith
    · exact mul_nonneg (by norm_num) (div_nonneg (double.round_nonneg _) hpow.le)
  have hle : 1677721600 / 100 ≤ t.number := by
    rw [hnumber]
    exact div_le_div_of_nonneg_right (by exact_mod_cast hnear) (by norm_num)
  rw [SizeText.size, hlast]
  calc (18446744073709550592 : ℚ) ≤ 1677721600 / 100 * 1024 ^ 4 := by norm_num
    _ ≤ t.number * 1024 ^ 4 := mul_le_mul_of_nonneg_right hle (by norm_num)

theorem size_of_bytes {t : SizeText ctype} {n : ℕ} (h0 : t.power = 0) (h : t.number = n) :
    t.size = n := by
  rw [SizeText.size, h0, pow_zero, mul_one, h]

/-- What is read for hundredths differs from the number by less than one part in a hundred. -/
theorem error_le {t : SizeText ctype} {b c : UInt64} (hpos : 0 < t.power)
    (hone : 1 ≤ double.round b.toNat / 1024 ^ t.power)
    (hnumber : t.number = (nearest (100 * (double.round b.toNat / 1024 ^ t.power)) : ℚ) / 100)
    (hc : bytesOf t.size = some c) : |(c.toNat : ℚ) - b.toNat| ≤ b.toNat / 100 := by
  obtain ⟨hunit, hkilo⟩ := unit_le hpos hone
  have hb : (1 : ℚ) ≤ b.toNat := by
    rw [Nat.one_le_cast]
    by_contra hzero
    obtain hzero : b.toNat = 0 := by omega
    rw [hzero, Nat.cast_zero, double.round_zero] at hunit
    linarith
  -- the three roundings: of the number, of its hundredths and of the product that is read
  have hfirst := abs_le.1 (normal_of_one_le hb).round_error
  rw [double_precision] at hfirst
  have hsecond := abs_le.1 (size_error (double.round_nonneg _) hnumber)
  have hthird := abs_le.1 (bytesOf_error t.size_nonneg hc)
  rw [abs_le]
  norm_num at hfirst hthird
  constructor <;> linarith [hfirst.1, hfirst.2, hsecond.1, hsecond.2, hthird.1, hthird.2]

/-- **A printed size can be read again.** The number comes back to within a hundredth, and
exactly below 1024; from `firstUnreadable` on the text is more than 64 bits and is refused. -/
theorem read_format (hspace : ctype.iswspace 0x20 = true) (b : UInt64) :
    (b.toNat < firstUnreadable → ∃ c, parseSizeBytes ctype (formatSizeBytes b) = some c ∧
      |(c.toNat : ℚ) - b.toNat| ≤ b.toNat / 100) ∧
    (b.toNat < 1024 → parseSizeBytes ctype (formatSizeBytes b) = some b) ∧
    (firstUnreadable ≤ b.toNat → parseSizeBytes ctype (formatSizeBytes b) = none) := by
  obtain ⟨t, htext, hpower, hbytes, hhundredths⟩ := format_eq hspace b
  rw [htext, t.parse_text]
  rcases Nat.eq_zero_or_pos t.power with h0 | hpos
  · obtain ⟨hlt, hnumber⟩ := hbytes h0
    have hread : bytesOf t.size = some b := by
      rw [size_of_bytes h0 hnumber, bytesOf_natCast (by omega)]
      simp
    refine ⟨fun _ => ⟨b, hread, ?_⟩, fun _ => hread, fun hge => ?_⟩
    · rw [sub_self, abs_zero]
      positivity
    · rw [firstUnreadable] at hge
      omega
  · obtain ⟨hone, hlt, hnumber⟩ := hhundredths hpos
    refine ⟨fun hb => ?_, fun hb => ?_, fun hge => ?_⟩
    · rcases hread : bytesOf t.size with _ | c
      · rw [bytesOf_eq_none_iff t.size_nonneg] at hread
        exact absurd (size_readable hb hpower hlt hnumber) (not_lt.2 hread)
      · exact ⟨c, rfl, error_le hpos hone hnumber hread⟩
    · -- 1023 is a double
      have hround := double.round_le (x := b.toNat) (y := 1023) (Nat.cast_nonneg _)
        (by exact_mod_cast Nat.le_of_lt_succ hb)
        (by exact_mod_cast representable_natCast (n := 1023) (by decide))
      obtain ⟨hunit, hkilo⟩ := unit_le hpos hone
      linarith
    · exact (bytesOf_eq_none_iff t.size_nonneg).2 (size_unreadable hge hpower hlt hnumber)

theorem read_format_ascii : ∃ c, parseSizeBytes asciiCType (formatSizeBytes 1152) = some c ∧
    |(c.toNat : ℚ) - (1152 : UInt64).toNat| ≤ (1152 : UInt64).toNat / 100 :=
  (read_format (by decide) 1152).1 (by decide)

end Format

end SsdCache.Sizes
