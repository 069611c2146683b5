import SsdCache.Proof.ConfigRoundTrip
import SsdCache.Spec.Sizes

/-!
# Reading sizes

A size is read as a `double`, scaled by its unit and cut to a whole number of bytes.

* `bytes_eq`: the code rounds twice, but for the bytes that is rounding once (`bytesOf`).
* `parseSizeBytes_eq`: so of any text the exact size counts.
* `SizeText.reads`: **what a text of the documented form is read as**.
-/

namespace SsdCache.Sizes

open Civil Binary

/-! ## Doubles -/

theorem double_precision : double.precision = 53 := rfl

theorem representable_natCast {n : ℕ} (h : n ≤ 2 ^ 53) : double.Representable n :=
  ⟨n, 0, h, by decide, by rw [zpow_zero, mul_one]⟩

theorem representable_zpow {k : ℤ} (h : -1074 ≤ k) : double.Representable (2 ^ k) :=
  ⟨1, k, by decide, h, by rw [Nat.cast_one, one_mul]⟩

theorem normal_of_le {x : ℚ} (h : 2 ^ (-1022 : ℤ) ≤ x) : double.Normal x := h

theorem normal_of_one_le {x : ℚ} (h : 1 ≤ x) : double.Normal x :=
  normal_of_le ((zpow_le_one_of_nonpos₀ (by norm_num) (by norm_num)).trans h)

/-- What is rounded once, to a whole number of bytes. -/
def bytesOf (size : ℚ) : Option UInt64 :=
  if 18446744073709551616 ≤ double.round size then none
  else some ⌊double.round size⌋₊.toUInt64

theorem round_unit {x : ℚ} (hx : 0 ≤ x) {j : ℕ} :
    double.round (double.round x * double.round (2 ^ j)) = double.round x * 2 ^ j := by
  have hpow : double.round (2 ^ j) = 2 ^ j := by
    rw [← zpow_natCast]
    exact double.round_eq (representable_zpow (by omega))
  rw [hpow, ← zpow_natCast]
  exact double.round_eq ((double.representable_round hx).scale (by omega))

/-- The unit only scales, but for numbers far below one byte. -/
theorem round_scale_or {x : ℚ} (hx : 0 ≤ x) {j : ℕ} (hj : j ≤ 40) :
    double.round x * 2 ^ j = double.round (x * 2 ^ j) ∨
      (double.round x * 2 ^ j < 1 ∧ double.round (x * 2 ^ j) < 1) := by
  by_cases hn : double.Normal x
  · left
    rw [← zpow_natCast]
    exact (hn.round_scale (by omega)).symm
  · right
    have hlt : x < 2 ^ (-1022 : ℤ) := not_le.1 hn
    have hscale : (2 : ℚ) ^ (-1022 : ℤ) * 2 ^ j ≤ 2 ^ (-982 : ℤ) := by
      rw [← zpow_natCast, ← Format.two_zpow_add]
      exact Format.two_zpow_le (by omega)
    have hone : (2 : ℚ) ^ (-982 : ℤ) < 1 := zpow_lt_one_of_neg₀ (by norm_num) (by norm_num)
    constructor
    · calc double.round x * 2 ^ j ≤ 2 ^ (-1022 : ℤ) * 2 ^ j :=
            mul_le_mul_of_nonneg_right
              (double.round_le hx hlt.le (representable_zpow (by norm_num))) (by positivity)
        _ ≤ 2 ^ (-982 : ℤ) := hscale
        _ < 1 := hone
    · refine (double.round_le (by positivity) ?_ (representable_zpow (by norm_num))).trans_lt hone
      exact (mul_le_mul_of_nonneg_right hlt.le (by positivity)).trans hscale

/-- **The arithmetic of `parse_size_bytes` rounds the exact size once.** -/
theorem bytes_eq {x : ℚ} (hx : 0 ≤ x) {j : ℕ} (hj : j ≤ 40) :
    (if ¬ isFinite (double.round x) then none
      else if 18446744073709551616 ≤ double.round (double.round x * double.round (2 ^ j)) then none
      else some ⌊double.round (double.round x * double.round (2 ^ j))⌋₊.toUInt64) =
      bytesOf (x * 2 ^ j) := by
  have hge : x ≤ x * 2 ^ j := le_mul_of_one_le_right hx (one_le_pow₀ (by norm_num))
  have hmono := double.round_mono hx hge
  rw [round_unit hx, bytesOf]
  by_cases hfin : isFinite (double.round x)
  · rw [if_neg (not_not.2 hfin)]
    rcases round_scale_or hx hj with heq | ⟨hl, hr⟩
    · rw [heq]
    · have hbig : ¬ (18446744073709551616 : ℚ) ≤ double.round x * 2 ^ j := by linarith
      have hbig' : ¬ (18446744073709551616 : ℚ) ≤ double.round (x * 2 ^ j) := by linarith
      rw [if_neg hbig, if_neg hbig', Nat.floor_eq_zero.2 hl, Nat.floor_eq_zero.2 hr]
  · rw [if_pos hfin, if_pos]
    have hinf : (2 : ℚ) ^ 1024 ≤ double.round x := by
      rw [isFinite, decide_eq_true_iff, not_lt] at hfin
      exact hfin
    calc (18446744073709551616 : ℚ) = 2 ^ 64 := by norm_num
      _ ≤ 2 ^ 1024 := pow_le_pow_right₀ (by norm_num) (by norm_num)
      _ ≤ double.round x := hinf
      _ ≤ double.round (x * 2 ^ j) := hmono

/-! ## The bytes of a size -/

/-- Half of the last place below `2 ^ 64` is refused too: it rounds up. -/
theorem le_round_iff {q : ℚ} (hq : 0 ≤ q) :
    18446744073709551616 ≤ double.round q ↔ 18446744073709550592 ≤ q := by
  constructor
  · intro h
    by_contra hlt
    rw [not_le] at hlt
    rcases lt_or_ge q 9223372036854775808 with hsmall | hlarge
    · have hle := double.round_le hq hsmall.le
        ⟨1, 63, by decide, by decide, by norm_num⟩
      linarith
    · -- the last place is 2048
      have hpos : 0 < q := by linarith
      have hexp : double.exponent q = 11 := by
        apply le_antisymm
        · rw [double.exponent_le_iff hpos (by decide)]
          calc q < 18446744073709550592 := hlt
            _ ≤ 2 ^ (11 + (double.precision : ℤ)) := by norm_num [double]
        · have hlog : 63 ≤ Int.log 2 q := (Format.le_log_iff hpos).2 (by norm_num; exact hlarge)
          have hexp := le_max_left (Int.log 2 q - ((double.precision : ℤ) - 1)) double.minExponent
          rw [double_precision] at hexp
          exact le_trans (by omega) hexp
      have hnear : nearest (q / 2 ^ (11 : ℤ)) ≤ 9007199254740991 := by
        apply nearest_le
        · rw [div_lt_iff₀ (by positivity)]
          norm_num
          linarith
        · positivity
      have hle : double.round q ≤ 9007199254740991 * 2 ^ (11 : ℤ) := by
        rw [Format.round, hexp]
        exact mul_le_mul_of_nonneg_right (by exact_mod_cast hnear) (by positivity)
      norm_num at hle
      linarith
  · intro h
    refine le_trans ?_ (double.round_mono (by norm_num) h)
    decide +kernel

theorem bytesOf_eq_none_iff {q : ℚ} (hq : 0 ≤ q) :
    bytesOf q = none ↔ 18446744073709550592 ≤ q := by
  rw [← le_round_iff hq, bytesOf]
  split_ifs with h <;> simp [h]

theorem bytesOf_eq_some {q : ℚ} {b : UInt64} (h : bytesOf q = some b) :
    double.round q < 18446744073709551616 ∧ b.toNat = ⌊double.round q⌋₊ := by
  rw [bytesOf] at h
  by_cases hlt : 18446744073709551616 ≤ double.round q
  · rw [if_pos hlt] at h
    exact absurd h (by simp)
  · rw [if_neg hlt, Option.some.injEq] at h
    rw [not_le] at hlt
    refine ⟨hlt, ?_⟩
    have hfloor : ⌊double.round q⌋₊ < 2 ^ 64 := by
      rw [Nat.floor_lt (double.round_nonneg q)]
      push_cast
      linarith
    rw [← h]
    exact UInt64.toNat_ofNat_of_lt' hfloor

/-- A whole number of bytes is read exactly. -/
theorem bytesOf_natCast {n : ℕ} (h : n ≤ 2 ^ 53) : bytesOf n = some n.toUInt64 := by
  have hlt : (n : ℚ) < 18446744073709551616 := by
    calc (n : ℚ) ≤ (2 ^ 53 : ℕ) := Nat.cast_le.2 h
      _ < 18446744073709551616 := by norm_num
  rw [bytesOf, double.round_eq (representable_natCast h), if_neg (not_le.2 hlt), Nat.floor_natCast]

theorem bytesOf_error {q : ℚ} (hq : 0 ≤ q) {b : UInt64} (h : bytesOf q = some b) :
    |(b.toNat : ℚ) - q| ≤ 1 + q / 2 ^ 53 := by
  obtain ⟨-, hb⟩ := bytesOf_eq_some h
  have hlo := Nat.floor_le (double.round_nonneg q)
  have hhi := Nat.lt_floor_add_one (double.round q)
  rw [hb]
  by_cases hn : double.Normal q
  · have herr := abs_le.1 hn.round_error
    rw [double_precision] at herr
    rw [abs_le]
    constructor <;> linarith [herr.1, herr.2]
  · -- far below one byte
    have hq' : q < 1 := by
      by_contra hge
      exact hn (normal_of_one_le (not_lt.1 hge))
    have hround : double.round q ≤ 1 :=
      double.round_le hq hq'.le (representable_zpow (k := 0) (by decide))
    have hnonneg : 0 ≤ q / 2 ^ 53 := div_nonneg hq (by positivity)
    have hfl : (0 : ℚ) ≤ ⌊double.round q⌋₊ := Nat.cast_nonneg _
    rw [abs_le]
    constructor <;> linarith

theorem bytesOf_mono {q r : ℚ} (hq : 0 ≤ q) (h : q ≤ r) {c : UInt64} (hc : bytesOf r = some c) :
    ∃ b, bytesOf q = some b ∧ b ≤ c := by
  obtain ⟨hlt, hcn⟩ := bytesOf_eq_some hc
  have hround := double.round_mono hq h
  have hq' : bytesOf q = some ⌊double.round q⌋₊.toUInt64 := by
    rw [bytesOf, if_neg (not_le.2 (hround.trans_lt hlt))]
  refine ⟨_, hq', ?_⟩
  rw [UInt64.le_iff_toNat_le, (bytesOf_eq_some hq').2, hcn]
  exact Nat.floor_mono hround

/-! ## Every text -/

theorem unitMultiplier_cases {suffix : WString} {m : UInt64} (h : unitMultiplier suffix = some m) :
    ∃ k ≤ 4, m.toNat = 1024 ^ k := by
  unfold unitMultiplier at h
  split_ifs at h
  · exact ⟨0, by decide, by rw [← Option.some.inj h]; decide⟩
  · exact ⟨1, by decide, by rw [← Option.some.inj h]; decide⟩
  · exact ⟨2, by decide, by rw [← Option.some.inj h]; decide⟩
  · exact ⟨3, by decide, by rw [← Option.some.inj h]; decide⟩
  · exact ⟨4, by decide, by rw [← Option.some.inj h]; decide⟩

theorem decimalNumber_nonneg {s : Text} {r : ℚ × Text} (h : decimalNumber s = some r) :
    0 ≤ r.1 := by
  obtain ⟨a, -, rfl⟩ := Option.map_eq_some_iff.1 h
  exact mul_nonneg (Nat.cast_nonneg _) (zpow_nonneg (by norm_num) _)

theorem hexNumber_nonneg {s : Text} {r : ℚ × Text} (h : hexNumber s = some r) : 0 ≤ r.1 := by
  obtain ⟨a, -, rfl⟩ := Option.map_eq_some_iff.1 h
  exact mul_nonneg (Nat.cast_nonneg _) (zpow_nonneg (by norm_num) _)

theorem unsignedNumber_nonneg {s : Text} {r : ℚ × Text} (h : unsignedNumber s = some r) :
    0 ≤ r.1 := by
  unfold unsignedNumber at h
  split at h
  · split_ifs at h
    · rw [Option.orElse_eq_some] at h
      rcases h with h | ⟨-, h⟩
      · exact hexNumber_nonneg h
      · exact decimalNumber_nonneg h
    · exact decimalNumber_nonneg h
  · exact decimalNumber_nonneg h

theorem wcstod_nonneg {ctype : CType} {s : WString} {r : Bool × ℚ × WString}
    (h : wcstod ctype s = some r) : 0 ≤ r.2.1 := by
  obtain ⟨a, ha, rfl⟩ := Option.map_eq_some_iff.1 h
  exact unsignedNumber_nonneg ha

/-- What a text says: the sign, the exact number and the unit. -/
def said (ctype : CType) (text : WString) : Option (Bool × ℚ × ℕ) := do
  let (negative, magnitude, rest) ← wcstod ctype ((trim ctype text).takeWhile (· ≠ 0))
  let multiplier ← unitMultiplier ((trim ctype rest).map ctype.towupper)
  return (negative, magnitude, multiplier.toNat)

/-- **Of every text `parse_size_bytes` gives the exact size, rounded once.** A minus sign is
no harm only to what rounds to zero. -/
theorem parseSizeBytes_eq (ctype : CType) (text : WString) :
    parseSizeBytes ctype text = (said ctype text).bind fun (negative, magnitude, multiplier) =>
      if negative ∧ double.round magnitude ≠ 0 then none
      else bytesOf (magnitude * multiplier) := by
  unfold parseSizeBytes said
  rcases hnum : wcstod ctype ((trim ctype text).takeWhile (· ≠ 0)) with _ | ⟨negative, x, rest⟩
  · rfl
  · have hx : 0 ≤ x := wcstod_nonneg hnum
    rcases hunit : unitMultiplier ((trim ctype rest).map ctype.towupper) with _ | m
    · simp [hunit]
    · obtain ⟨k, hk, hm⟩ := unitMultiplier_cases hunit
      have hpow : ((m.toNat : ℕ) : ℚ) = 2 ^ (10 * k) := by
        rw [hm, pow_mul]
        norm_num
      have hbytes := bytes_eq hx (j := 10 * k) (by omega)
      simp only [Option.bind_eq_bind, Option.bind_some, Option.pure_def, hunit, hpow, ← hbytes]
      by_cases hneg : negative = true ∧ double.round x ≠ 0
      · rw [if_pos (Or.inl hneg), if_pos hneg]
      · rw [if_neg hneg]
        by_cases hfin : isFinite (double.round x) = true
        · rw [if_neg (not_or.2 ⟨hneg, not_not.2 hfin⟩), if_neg (not_not.2 hfin)]
        · rw [if_pos (Or.inr hfin), if_pos hfin]

/-! ## Numbers and units -/

/-- What follows is no part of the number. -/
def Stops (s : Text) : Prop :=
  ∀ c ∈ s.head?, c.isDigit = false ∧ c ≠ '.' ∧ c.toLower ≠ 'e' ∧ c.toLower ≠ 'x'

theorem takeWhile_digits {ds t : Text} (hds : ∀ c ∈ ds, c.isDigit = true)
    (ht : ∀ c ∈ t.head?, c.isDigit = false) :
    (ds ++ t).takeWhile Char.isDigit = ds ∧ (ds ++ t).dropWhile Char.isDigit = t := by
  rw [List.takeWhile_append_of_pos hds, List.dropWhile_append_of_pos hds]
  cases t with
  | nil => simp
  | cons c t =>
    have hc := ht c rfl
    simp [hc]

theorem Stops.not_digit {t : Text} (h : Stops t) : ∀ c ∈ t.head?, c.isDigit = false :=
  fun c hc => (h c hc).1

theorem readExponent_stops {t : Text} (h : Stops t) : readExponent 'e' t = (0, t) := by
  cases t with
  | nil => rfl
  | cons c t =>
    have hc := (h c rfl).2.2.1
    simp [readExponent, hc]

/-- Digits, with or without a point. -/
def numeral (whole : Text) (fraction : Option Text) : Text :=
  whole ++ fraction.elim [] ('.' :: ·)

def numeralValue (whole : Text) (fraction : Option Text) : ℚ :=
  (readDigits 10 (whole ++ fraction.getD []) : ℚ) / 10 ^ (fraction.getD []).length

variable {whole t : Text} {fraction : Option Text}

theorem significand_numeral (hwhole : ∀ c ∈ whole, c.isDigit = true) (hne : whole ≠ [])
    (hfraction : ∀ ds ∈ fraction, ∀ c ∈ ds, c.isDigit = true) (ht : Stops t) :
    significand Char.isDigit 10 (numeral whole fraction ++ t) =
      some (readDigits 10 (whole ++ fraction.getD []), (fraction.getD []).length, t) := by
  cases fraction with
  | none =>
    obtain ⟨htake, hdrop⟩ := takeWhile_digits hwhole ht.not_digit
    unfold significand numeral
    simp only [Option.elim_none, List.append_nil, htake, hdrop, Option.getD_none, List.length_nil]
    cases t with
    | nil => simp [hne]
    | cons c t =>
      have hc := (ht c rfl).2.1
      split
      · rename_i heq
        exact absurd (List.cons.inj heq).1 hc
      · rw [if_neg hne]
  | some ds =>
    have hds := hfraction ds rfl
    obtain ⟨htake, hdrop⟩ := takeWhile_digits (t := '.' :: (ds ++ t)) hwhole
      (by intro c hc; obtain rfl := Option.some.inj hc; decide)
    obtain ⟨htake', hdrop'⟩ := takeWhile_digits hds ht.not_digit
    unfold significand numeral
    simp only [Option.elim_some, List.append_assoc, List.cons_append, htake, hdrop, htake', hdrop',
      Option.getD_some, hne, false_and, if_false]

theorem decimalNumber_numeral (hwhole : ∀ c ∈ whole, c.isDigit = true) (hne : whole ≠ [])
    (hfraction : ∀ ds ∈ fraction, ∀ c ∈ ds, c.isDigit = true) (ht : Stops t) :
    decimalNumber (numeral whole fraction ++ t) =
      some (numeralValue whole fraction, t) := by
  rw [decimalNumber, significand_numeral hwhole hne hfraction ht, Option.map_some]
  simp only [numeralValue, readExponent_stops ht, zero_sub, zpow_neg, zpow_natCast, div_eq_mul_inv]

theorem isDigit_bounds {c : Char} (h : c.isDigit = true) : 48 ≤ c.toNat ∧ c.toNat ≤ 57 :=
  Char.isDigit_iff_toNat.1 h

/-- Only letters have another case. -/
theorem toLower_eq_self {c : Char} (h : c.toNat < 65 ∨ 90 < c.toNat) : c.toLower = c := by
  refine dif_neg fun hup => ?_
  rw [ge_iff_le, UInt32.le_iff_toNat_le, UInt32.le_iff_toNat_le] at hup
  have hlo : 65 ≤ c.toNat := hup.1
  have hhi : c.toNat ≤ 90 := hup.2
  omega

/-- A mark of hexadecimal digits does not follow the first digit. -/
theorem unsignedNumber_numeral (hwhole : ∀ c ∈ whole, c.isDigit = true) (hne : whole ≠ [])
    (hfraction : ∀ ds ∈ fraction, ∀ c ∈ ds, c.isDigit = true) (ht : Stops t) :
    unsignedNumber (numeral whole fraction ++ t) =
      some (numeralValue whole fraction, t) := by
  have hdec := decimalNumber_numeral hwhole hne hfraction ht
  unfold unsignedNumber
  split
  · rename_i x u heq
    have hx : x.toLower ≠ 'x' := by
      -- the second character is a digit, the point or the first of what follows
      obtain ⟨d, ds, rfl⟩ := List.exists_cons_of_ne_nil hne
      cases ds with
      | cons d' ds =>
        obtain rfl : d' = x := (List.cons.inj (List.cons.inj heq).2).1
        have hd := isDigit_bounds (hwhole d' (by simp))
        rw [toLower_eq_self (by omega)]
        rintro rfl
        exact absurd hd.2 (by decide)
      | nil =>
        cases fraction with
        | some ds =>
          obtain rfl : '.' = x := (List.cons.inj (List.cons.inj heq).2).1
          decide
        | none =>
          have htail : t = x :: u := (List.cons.inj heq).2
          exact (ht x (by rw [htail]; rfl)).2.2.2
    rw [if_neg hx, hdec]
  · exact hdec

theorem stops_of_not_graphic {c : Char} (h : c.toNat < 0x21 ∨ 0x7E < c.toNat) (s : Text) :
    Stops (c :: s) := by
  intro d hd
  obtain rfl := Option.some.inj hd
  have hlower : c.toLower = c := toLower_eq_self (by omega)
  rw [hlower]
  refine ⟨?_, ?_, ?_, ?_⟩
  · by_contra hdigit
    have hb := isDigit_bounds (Bool.not_eq_false _ ▸ hdigit)
    omega
  · rintro rfl
    exact absurd h (by decide)
  · rintro rfl
    exact absurd h (by decide)
  · rintro rfl
    exact absurd h (by decide)

theorem ofNat_toNat_or (u : UInt16) :
    (Char.ofNat u.toNat).toNat = u.toNat ∨ (Char.ofNat u.toNat).toNat = 0 := by
  by_cases h : u.toNat.isValidChar
  · left
    rw [Char.ofNat, dif_pos h]
    rfl
  · right
    rw [Char.ofNat, dif_neg h]
    rfl

/-- White space stops a number. -/
theorem stops_of_space {ctype : CType} {u : UInt16} (h : ctype.iswspace u = true) (s : Text) :
    Stops (Char.ofNat u.toNat :: s) := by
  apply stops_of_not_graphic
  by_contra hgraphic
  have hu : 0x21 ≤ u ∧ u ≤ 0x7E := by
    rw [UInt16.le_iff_toNat_le, UInt16.le_iff_toNat_le]
    rcases ofNat_toNat_or u with heq | heq
    · rw [heq] at hgraphic
      exact ⟨by simpa using Nat.le_of_not_lt fun hlt => hgraphic (Or.inl hlt),
        by simpa using Nat.le_of_not_lt fun hlt => hgraphic (Or.inr hlt)⟩
    · omega
  rw [ctype.iswspace_graphic u hu.1 hu.2] at h
  cases h

theorem numeral_graphic (hwhole : ∀ c ∈ whole, c.isDigit = true)
    (hfraction : ∀ ds ∈ fraction, ∀ c ∈ ds, c.isDigit = true) :
    Graphic (numeral whole fraction) := by
  have hdigit {c : Char} (h : c.isDigit = true) : 0x21 ≤ c.toNat ∧ c.toNat ≤ 0x7E := by
    have hb := isDigit_bounds h
    omega
  intro c hc
  cases fraction with
  | none =>
    rw [numeral, Option.elim_none, List.append_nil] at hc
    exact hdigit (hwhole c hc)
  | some ds =>
    rw [numeral, Option.elim_some, List.mem_append, List.mem_cons] at hc
    rcases hc with hc | rfl | hc
    · exact hdigit (hwhole c hc)
    · decide
    · exact hdigit (hfraction ds rfl c hc)

theorem map_ofNat_wideText {s : Text} (h : Graphic s) :
    ((wideText s).map fun u => Char.ofNat u.toNat) = s := by
  rw [wideText, List.map_map]
  conv_rhs => rw [← List.map_id s]
  refine List.map_congr_left fun c hc => ?_
  rw [Function.comp_apply, toNat_unit_of_ascii (by have := h c hc; omega), Char.ofNat_toNat, id]

theorem space_wideText (ctype : CType) {s : Text} (h : Graphic s) :
    ∀ u ∈ wideText s, ctype.iswspace u = false ∧ u ≠ 0 := by
  intro u hu
  obtain ⟨c, hc, rfl⟩ := List.mem_map.1 hu
  have hb := h c hc
  have hn : c.toNat.toUInt16.toNat = c.toNat := toNat_unit_of_ascii (by omega)
  constructor
  · apply ctype.iswspace_graphic
    · rw [UInt16.le_iff_toNat_le, hn]
      exact hb.1
    · rw [UInt16.le_iff_toNat_le, hn]
      exact hb.2
  · intro h0
    rw [h0] at hn
    have h00 : (0 : UInt16).toNat = 0 := rfl
    omega

/-- The number at the start of a text is read, and the text behind it stays. -/
theorem wcstod_numeral (ctype : CType) (hwhole : ∀ c ∈ whole, c.isDigit = true) (hne : whole ≠ [])
    (hfraction : ∀ ds ∈ fraction, ∀ c ∈ ds, c.isDigit = true) {rest : WString}
    (ht : Stops (rest.map fun u => Char.ofNat u.toNat)) :
    wcstod ctype (wideText (numeral whole fraction) ++ rest) =
      some (false, numeralValue whole fraction, rest) := by
  have hgraphic := numeral_graphic hwhole hfraction
  obtain ⟨d, ds, rfl⟩ := List.exists_cons_of_ne_nil hne
  have hdrop : (wideText (numeral (d :: ds) fraction) ++ rest).dropWhile ctype.iswspace =
      wideText (numeral (d :: ds) fraction) ++ rest := by
    have hd := (space_wideText ctype hgraphic d.toNat.toUInt16 (List.mem_cons_self)).1
    exact List.dropWhile_cons_of_neg (by simp [hd])
  have hchars : ((wideText (numeral (d :: ds) fraction) ++ rest).map fun u => Char.ofNat u.toNat) =
      numeral (d :: ds) fraction ++ rest.map fun u => Char.ofNat u.toNat := by
    rw [List.map_append, map_ofNat_wideText hgraphic]
  have hsign (s : Text) : readSign (d :: s) = (false, d :: s) := by
    have hd := isDigit_bounds (hwhole d List.mem_cons_self)
    unfold readSign
    split
    · rename_i heq
      obtain rfl := (List.cons.inj heq).1
      exact absurd hd.1 (by decide)
    · rename_i heq
      obtain rfl := (List.cons.inj heq).1
      exact absurd hd.1 (by decide)
    · rfl
  have hnum := unsignedNumber_numeral hwhole hne hfraction ht
  have hlen : (wideText (numeral (d :: ds) fraction) ++ rest).length -
      (rest.map fun u => Char.ofNat u.toNat).length =
      (wideText (numeral (d :: ds) fraction)).length := by
    rw [List.length_map, List.length_append, Nat.add_sub_cancel]
  have hs : readSign (numeral (d :: ds) fraction ++ rest.map fun u => Char.ofNat u.toNat) =
      (false, numeral (d :: ds) fraction ++ rest.map fun u => Char.ofNat u.toNat) := hsign _
  unfold wcstod
  simp only [hdrop, hchars, hs, hnum, Option.map_some, hlen, List.drop_left']

/-- The letters of the units are graphic and stop a number. -/
theorem unitLetter_cases {u : UInt16} (h : u ∈ wide "BKMGTbkmgt") :
    (0x21 ≤ u ∧ u ≤ 0x7E) ∧ u ≠ 0 ∧ (Char.ofNat u.toNat).isDigit = false ∧
      Char.ofNat u.toNat ≠ '.' ∧ (Char.ofNat u.toNat).toLower ≠ 'e' ∧
      (Char.ofNat u.toNat).toLower ≠ 'x' := by
  have hall : (wide "BKMGTbkmgt").all fun u => decide ((0x21 ≤ u ∧ u ≤ 0x7E) ∧ u ≠ 0 ∧
      (Char.ofNat u.toNat).isDigit = false ∧ Char.ofNat u.toNat ≠ '.' ∧
      (Char.ofNat u.toNat).toLower ≠ 'e' ∧ (Char.ofNat u.toNat).toLower ≠ 'x') := by decide
  exact of_decide_eq_true (List.all_eq_true.1 hall u h)

/-- A size as the documentation of `parse_size_bytes` has it: digits, perhaps a point and more
digits, perhaps a unit, and white space around both. -/
structure SizeText (ctype : CType) where
  before : WString
  whole : Text
  fraction : Option Text
  between : WString
  unit : WString
  after : WString
  power : ℕ
  blank : ∀ u ∈ before ++ (between ++ after), ctype.iswspace u = true ∧ u ≠ 0
  whole_digits : ∀ c ∈ whole, c.isDigit = true
  whole_ne : whole ≠ []
  fraction_digits : ∀ ds ∈ fraction, ∀ c ∈ ds, c.isDigit = true
  unit_letters : unit ⊆ wide "BKMGTbkmgt"
  unit_eq : (unitMultiplier (unit.map ctype.towupper)).map UInt64.toNat = some (1024 ^ power)

namespace SizeText

variable {ctype : CType} (t : SizeText ctype)

def text : WString :=
  t.before ++ (wideText (numeral t.whole t.fraction) ++ (t.between ++ (t.unit ++ t.after)))

/-- The number before the unit. -/
def number : ℚ := numeralValue t.whole t.fraction

/-- The exact number of bytes. -/
def size : ℚ := t.number * 1024 ^ t.power

theorem number_nonneg : 0 ≤ t.number := by
  unfold number numeralValue
  positivity

theorem size_nonneg : 0 ≤ t.size := mul_nonneg t.number_nonneg (by positivity)

theorem graphic : Graphic (numeral t.whole t.fraction) :=
  numeral_graphic t.whole_digits t.fraction_digits

theorem letter {u : UInt16} (h : u ∈ t.unit) :
    ctype.iswspace u = false ∧ u ≠ 0 ∧ ∀ s, Stops (Char.ofNat u.toNat :: s) := by
  obtain ⟨hb, h0, hstop⟩ := unitLetter_cases (t.unit_letters h)
  refine ⟨ctype.iswspace_graphic u hb.1 hb.2, h0, fun s c hc => ?_⟩
  obtain rfl := Option.some.inj hc
  exact hstop

theorem numeral_ne_nil : wideText (numeral t.whole t.fraction) ≠ [] := by
  obtain ⟨d, ds, hds⟩ := List.exists_cons_of_ne_nil t.whole_ne
  rw [hds]
  exact List.cons_ne_nil _ _

theorem numeral_space {u : UInt16} (h : u ∈ wideText (numeral t.whole t.fraction)) :
    ctype.iswspace u = false ∧ u ≠ 0 := space_wideText ctype t.graphic u h

/-- What is left when the white space at both ends is gone. -/
def core : WString :=
  wideText (numeral t.whole t.fraction) ++ if t.unit = [] then [] else t.between ++ t.unit

theorem trim_text : trim ctype t.text = t.core := by
  have hbefore : ∀ u ∈ t.before, ctype.iswspace u = true := fun u hu =>
    (t.blank u (List.mem_append_left _ hu)).1
  have hbetween : ∀ u ∈ t.between, ctype.iswspace u = true := fun u hu =>
    (t.blank u (List.mem_append_right _ (List.mem_append_left _ hu))).1
  have hafter : ∀ u ∈ t.after, ctype.iswspace u = true := fun u hu =>
    (t.blank u (List.mem_append_right _ (List.mem_append_right _ hu))).1
  have hhead : ∀ u ∈ (wideText (numeral t.whole t.fraction)).head?, ctype.iswspace u = false :=
    fun u hu => (t.numeral_space (List.mem_of_mem_head? hu)).1
  unfold trim core text
  by_cases hunit : t.unit = []
  · rw [if_pos hunit, hunit, List.nil_append, List.append_nil]
    refine Text.trim_append hbefore (fun u hu => ?_) ⟨hhead, fun u hu => ?_⟩
    · exact (List.mem_append.1 hu).elim (hbetween u) (hafter u)
    · exact (t.numeral_space (List.mem_of_mem_getLast? hu)).1
  · rw [if_neg hunit]
    have hsplit : wideText (numeral t.whole t.fraction) ++ (t.between ++ (t.unit ++ t.after)) =
        (wideText (numeral t.whole t.fraction) ++ (t.between ++ t.unit)) ++ t.after := by
      simp only [List.append_assoc]
    rw [hsplit]
    refine Text.trim_append hbefore hafter ⟨fun u hu => ?_, fun u hu => ?_⟩
    · rw [List.head?_append_of_ne_nil _ t.numeral_ne_nil] at hu
      exact hhead u hu
    · rw [← List.append_assoc, List.getLast?_append_of_ne_nil _ hunit] at hu
      exact (t.letter (List.mem_of_mem_getLast? hu)).1

theorem core_ne_zero {u : UInt16} (h : u ∈ t.core) : u ≠ 0 := by
  rw [core, List.mem_append] at h
  rcases h with h | h
  · exact (t.numeral_space h).2
  · split_ifs at h with hunit
    · exact absurd h List.not_mem_nil
    · rcases List.mem_append.1 h with h | h
      · exact (t.blank u (List.mem_append_right _ (List.mem_append_left _ h))).2
      · exact (t.letter h).2.1

/-- Behind the number stands white space, the unit or nothing. -/
theorem stops_rest : Stops ((if t.unit = [] then [] else t.between ++ t.unit).map
    fun u => Char.ofNat u.toNat) := by
  by_cases hunit : t.unit = []
  · rw [if_pos hunit]
    intro c hc
    exact absurd hc (by simp)
  · rw [if_neg hunit]
    rcases hbetween : t.between with _ | ⟨u, us⟩
    · obtain ⟨u, us, hu⟩ := List.exists_cons_of_ne_nil hunit
      rw [List.nil_append, hu]
      exact (t.letter (u := u) (by rw [hu]; exact List.mem_cons_self)).2.2 _
    · have hu : ctype.iswspace u = true := by
        refine (t.blank u (List.mem_append_right _ (List.mem_append_left _ ?_))).1
        rw [hbetween]
        exact List.mem_cons_self
      exact stops_of_space hu _

theorem trim_rest : trim ctype (if t.unit = [] then [] else t.between ++ t.unit) = t.unit := by
  by_cases hunit : t.unit = []
  · rw [if_pos hunit, hunit]
    rfl
  · rw [if_neg hunit]
    have htrimmed : Text.Trimmed ctype.iswspace t.unit :=
      ⟨fun u hu => (t.letter (List.mem_of_mem_head? hu)).1,
        fun u hu => (t.letter (List.mem_of_mem_getLast? hu)).1⟩
    have htrim := Text.trim_append (a := t.between) (b := [])
      (fun u hu => (t.blank u (List.mem_append_right _ (List.mem_append_left _ hu))).1)
      (by simp) htrimmed
    rw [List.append_nil] at htrim
    exact htrim

theorem said_text : said ctype t.text = some (false, t.number, 1024 ^ t.power) := by
  have hcut : t.core.takeWhile (· ≠ 0) = t.core :=
    List.takeWhile_eq_self_iff.2 fun u hu => decide_eq_true (t.core_ne_zero hu)
  have hread := wcstod_numeral ctype t.whole_digits t.whole_ne t.fraction_digits t.stops_rest
  obtain ⟨m, hm, hpow⟩ := Option.map_eq_some_iff.1 t.unit_eq
  unfold said
  rw [t.trim_text, hcut, core, hread]
  simp only [Option.bind_eq_bind, Option.bind_some, t.trim_rest, hm, hpow, Option.pure_def, number]

/-- **A size in documented form is read as its exact number of bytes, rounded once.** -/
theorem parse_text : parseSizeBytes ctype t.text = bytesOf t.size := by
  rw [parseSizeBytes_eq, t.said_text, Option.bind_some]
  simp [size]

/-- **The sizes of the command line.** A text in documented form is its exact number of bytes,
rounded once; it is refused when it is 2 ^ 64 bytes or within 1024 below, a whole number of bytes up to 2 ^ 53 is read exactly, every other to
within a byte and one part in 2 ^ 53, and a larger size never gives fewer bytes. -/
theorem reads :
    parseSizeBytes ctype t.text = bytesOf t.size ∧
    (parseSizeBytes ctype t.text = none ↔ 18446744073709550592 ≤ t.size) ∧
    (∀ n : ℕ, n ≤ 2 ^ 53 → t.size = n → parseSizeBytes ctype t.text = some n.toUInt64) ∧
    (∀ b, parseSizeBytes ctype t.text = some b →
      |(b.toNat : ℚ) - t.size| ≤ 1 + t.size / 2 ^ 53) ∧
    ∀ (u : SizeText ctype) (c : UInt64), t.size ≤ u.size → parseSizeBytes ctype u.text = some c →
      ∃ b, parseSizeBytes ctype t.text = some b ∧ b ≤ c := by
  rw [t.parse_text]
  refine ⟨rfl, bytesOf_eq_none_iff t.size_nonneg, fun n hn h => ?_, fun b h => ?_, fun u c hle h => ?_⟩
  · rw [h, bytesOf_natCast hn]
  · exact bytesOf_error t.size_nonneg h
  · rw [u.parse_text] at h
    exact bytesOf_mono t.size_nonneg hle h

/-- `1.5 GB` -/
def gigabytes : SizeText asciiCType where
  before := []
  whole := ['1']
  fraction := some ['5']
  between := wide " "
  unit := wide "GB"
  after := []
  power := 3
  blank u hu := by
    obtain rfl : u = 0x20 := by simpa [wide] using hu
    decide
  whole_digits := by simp
  whole_ne := List.cons_ne_nil _ _
  fraction_digits := by simp
  unit_letters := by decide
  unit_eq := by decide

theorem reads_gigabytes : parseSizeBytes asciiCType gigabytes.text = some 1610612736 := by
  have hdigits : readDigits 10 ['1', '5'] = 15 := by decide
  have hsize : gigabytes.size = 1610612736 := by
    simp only [size, number, numeralValue, gigabytes, Option.getD_some, List.singleton_append,
      hdigits]
    norm_num
  exact (reads gigabytes).2.2.1 1610612736 (by norm_num) hsize

end SizeText

end SsdCache.Sizes
