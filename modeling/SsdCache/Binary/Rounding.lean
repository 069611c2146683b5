import Mathlib.Algebra.Order.Floor.Semiring
import Mathlib.Data.Int.Log
import Mathlib.Data.Rat.Floor
import Mathlib.Tactic.FieldSimp
import Mathlib.Tactic.Linarith
import Mathlib.Tactic.Ring

/-!
# Rounding to binary floating point

The numbers of a format are `m * 2 ^ k` with `m` of at most `precision` bits and `k` not below
`minExponent`; there is no greatest one. `Format.round` takes an exact number that is not
negative to the nearest of them, ties to even:

* `Format.round_eq`: what the format has is kept;
* `Format.round_mono`: rounding keeps the order;
* `Format.round_error`: the error is at most half of the last place;
* `Format.round_scale`: above the subnormal numbers a power of two only scales.
-/

namespace SsdCache.Binary

/-- The whole number nearest to `q`, and of two the even one. -/
def nearest (q : ℚ) : ℕ :=
  if q - ⌊q⌋₊ < 1 / 2 then ⌊q⌋₊
  else if 1 / 2 < q - ⌊q⌋₊ then ⌊q⌋₊ + 1
  else ⌊q⌋₊ + ⌊q⌋₊ % 2

theorem floor_le_nearest (q : ℚ) : ⌊q⌋₊ ≤ nearest q := by
  unfold nearest
  split_ifs <;> omega

theorem nearest_le_floor (q : ℚ) : nearest q ≤ ⌊q⌋₊ + 1 := by
  unfold nearest
  split_ifs <;> omega

@[simp] theorem nearest_natCast (n : ℕ) : nearest n = n := by
  have h : (n : ℚ) - ⌊(n : ℚ)⌋₊ < 1 / 2 := by
    rw [Nat.floor_natCast, sub_self]
    norm_num
  rw [nearest, if_pos h, Nat.floor_natCast]

@[simp] theorem nearest_zero : nearest 0 = 0 := by
  have h := nearest_natCast 0
  rwa [Nat.cast_zero] at h

theorem nearest_error {q : ℚ} (hq : 0 ≤ q) : |(nearest q : ℚ) - q| ≤ 1 / 2 := by
  have hlo := Nat.floor_le hq
  have hhi := Nat.lt_floor_add_one q
  have hpar : ((⌊q⌋₊ % 2 : ℕ) : ℚ) ≤ 1 := by exact_mod_cast Nat.le_of_lt_succ (Nat.mod_lt _ two_pos)
  have hpar' : (0 : ℚ) ≤ ((⌊q⌋₊ % 2 : ℕ) : ℚ) := Nat.cast_nonneg _
  unfold nearest
  split_ifs with h1 h2 <;> rw [abs_le] <;> push_cast at * <;> constructor <;> linarith

theorem nearest_mono {q r : ℚ} (h : q ≤ r) : nearest q ≤ nearest r := by
  rcases (Nat.floor_mono h).lt_or_eq with hlt | heq
  · calc nearest q ≤ ⌊q⌋₊ + 1 := nearest_le_floor q
      _ ≤ ⌊r⌋₊ := hlt
      _ ≤ nearest r := floor_le_nearest r
  · -- in one unit interval the two tests can only turn from no to yes
    unfold nearest
    rw [← heq]
    split_ifs <;> first | omega | (exfalso; linarith)

theorem le_nearest {n : ℕ} {q : ℚ} (h : n - 1 / 2 < q) (hq : 0 ≤ q) : n ≤ nearest q := by
  have he := abs_le.1 (nearest_error hq)
  have hlt : (n : ℚ) < (nearest q + 1 : ℕ) := by push_cast; linarith [he.1]
  exact Nat.lt_succ_iff.1 (by exact_mod_cast hlt)

theorem nearest_le {n : ℕ} {q : ℚ} (h : q < n + 1 / 2) (hq : 0 ≤ q) : nearest q ≤ n := by
  have he := abs_le.1 (nearest_error hq)
  have hlt : (nearest q : ℚ) < (n + 1 : ℕ) := by push_cast; linarith [he.2]
  exact Nat.lt_succ_iff.1 (by exact_mod_cast hlt)

/-- A binary floating point format without a greatest number. -/
structure Format where
  precision : ℕ
  minExponent : ℤ
  precision_pos : 0 < precision

namespace Format

variable (F : Format) {x y : ℚ}

/-- The exponent of the last place of `x`. -/
def exponent (x : ℚ) : ℤ := max (Int.log 2 x - (F.precision - 1)) F.minExponent

/-- To nearest, ties to even. -/
def round (x : ℚ) : ℚ := nearest (x / 2 ^ F.exponent x) * 2 ^ F.exponent x

/-- The numbers of the format. -/
def Representable (x : ℚ) : Prop :=
  ∃ (m : ℕ) (k : ℤ), m ≤ 2 ^ F.precision ∧ F.minExponent ≤ k ∧ x = m * 2 ^ k

/-- The last place of `x` is the last bit of a significand of full length. -/
def Normal (x : ℚ) : Prop := (2 : ℚ) ^ (F.minExponent + (F.precision - 1)) ≤ x

theorem two_zpow_pos (k : ℤ) : (0 : ℚ) < 2 ^ k := zpow_pos two_pos k

theorem two_zpow_add (j k : ℤ) : (2 : ℚ) ^ (j + k) = 2 ^ j * 2 ^ k := zpow_add₀ two_ne_zero j k

theorem two_zpow_le {j k : ℤ} (h : j ≤ k) : (2 : ℚ) ^ j ≤ 2 ^ k :=
  zpow_le_zpow_right₀ (by norm_num) h

theorem div_mul_zpow (x : ℚ) (k : ℤ) : x / 2 ^ k * 2 ^ k = x :=
  div_mul_cancel₀ x (two_zpow_pos k).ne'

theorem div_zpow_nonneg (hx : 0 ≤ x) (k : ℤ) : 0 ≤ x / 2 ^ k :=
  div_nonneg hx (two_zpow_pos k).le

theorem minExponent_le (x : ℚ) : F.minExponent ≤ F.exponent x := le_max_right _ _

theorem exponent_mono (hx : 0 < x) (h : x ≤ y) : F.exponent x ≤ F.exponent y :=
  max_le_max (sub_le_sub_right (Int.log_mono_right hx h) _) le_rfl

theorem log_le_iff (hx : 0 < x) {k : ℤ} : Int.log 2 x ≤ k ↔ x < 2 ^ (k + 1) := by
  have h := Int.lt_zpow_iff_log_lt (b := 2) one_lt_two hx (x := k + 1)
  rw [Nat.cast_ofNat] at h
  rw [h, Int.lt_add_one_iff]

theorem le_log_iff (hx : 0 < x) {k : ℤ} : k ≤ Int.log 2 x ↔ (2 : ℚ) ^ k ≤ x := by
  have h := Int.zpow_le_iff_le_log (b := 2) one_lt_two hx (x := k)
  rw [Nat.cast_ofNat] at h
  exact h.symm

theorem exponent_le_iff (hx : 0 < x) {k : ℤ} (hk : F.minExponent ≤ k) :
    F.exponent x ≤ k ↔ x < 2 ^ (k + F.precision) := by
  rw [exponent, max_le_iff, and_iff_left hk, sub_le_iff_le_add, log_le_iff hx]
  congr! 2
  ring

/-- A significand has at most `precision` bits. -/
theorem significand_lt (hx : 0 < x) : x / 2 ^ F.exponent x < 2 ^ F.precision := by
  have h := (F.exponent_le_iff hx (F.minExponent_le x)).1 le_rfl
  rw [two_zpow_add, zpow_natCast] at h
  rw [div_lt_iff₀ (two_zpow_pos _), mul_comm]
  exact h

variable {F} in
theorem Normal.pos (h : F.Normal x) : 0 < x := (two_zpow_pos _).trans_le h

variable {F} in
theorem Normal.le (h : F.Normal x) (hxy : x ≤ y) : F.Normal y := le_trans h hxy

variable {F} in
theorem Normal.exponent (h : F.Normal x) : F.exponent x = Int.log 2 x - (F.precision - 1) := by
  have hlog := (le_log_iff h.pos).2 h
  exact max_eq_left (by omega)

theorem normal_of_lt_exponent (hx : 0 < x) (h : F.minExponent < F.exponent x) : F.Normal x := by
  have hlog : F.minExponent < Int.log 2 x - (F.precision - 1) := by
    rw [Format.exponent, lt_max_iff] at h
    exact h.resolve_right (lt_irrefl _)
  exact (le_log_iff hx).1 (by omega)

variable {F} in
/-- Of a normal number the significand has full length. -/
theorem Normal.le_significand (h : F.Normal x) :
    2 ^ (F.precision - 1 : ℕ) ≤ x / 2 ^ F.exponent x := by
  have hp := F.precision_pos
  have hlog := (le_log_iff h.pos).1 (le_refl (Int.log 2 x))
  have hexp : Int.log 2 x = ((F.precision - 1 : ℕ) : ℤ) + F.exponent x := by
    rw [h.exponent]
    omega
  rw [le_div_iff₀ (two_zpow_pos _), ← zpow_natCast, ← two_zpow_add, ← hexp]
  exact hlog

theorem round_zero : F.round 0 = 0 := by
  rw [round, zero_div, nearest_zero, Nat.cast_zero, zero_mul]

theorem round_nonneg (x : ℚ) : 0 ≤ F.round x :=
  mul_nonneg (Nat.cast_nonneg _) (two_zpow_pos _).le

theorem nearest_significand_le (hx : 0 < x) :
    nearest (x / 2 ^ F.exponent x) ≤ 2 ^ F.precision := by
  have h := nearest_mono (F.significand_lt hx).le
  rwa [← Nat.cast_two, ← Nat.cast_pow, nearest_natCast, Nat.cast_two] at h

variable {F} in
theorem Normal.le_nearest_significand (h : F.Normal x) :
    2 ^ (F.precision - 1) ≤ nearest (x / 2 ^ F.exponent x) := by
  have h := nearest_mono h.le_significand
  rwa [← Nat.cast_two, ← Nat.cast_pow, nearest_natCast, Nat.cast_two] at h

theorem representable_round (hx : 0 ≤ x) : F.Representable (F.round x) := by
  rcases hx.eq_or_lt with rfl | hx
  · exact ⟨0, F.minExponent, Nat.zero_le _, le_rfl, by rw [round_zero, Nat.cast_zero, zero_mul]⟩
  · exact ⟨_, _, F.nearest_significand_le hx, F.minExponent_le x, rfl⟩

/-- A whole multiple of the last place is kept. -/
theorem round_eq_of_lt {m : ℕ} {k : ℤ} (hm : m < 2 ^ F.precision) (hk : F.minExponent ≤ k) :
    F.round (m * 2 ^ k) = m * 2 ^ k := by
  rcases Nat.eq_zero_or_pos m with rfl | hpos
  · rw [Nat.cast_zero, zero_mul, round_zero]
  · have hx : (0 : ℚ) < m * 2 ^ k := mul_pos (Nat.cast_pos.2 hpos) (two_zpow_pos k)
    have hle : F.exponent (m * 2 ^ k) ≤ k := by
      rw [F.exponent_le_iff hx hk, add_comm, two_zpow_add, zpow_natCast]
      exact mul_lt_mul_of_pos_right (by exact_mod_cast hm) (two_zpow_pos k)
    obtain ⟨d, hd⟩ := Int.le.dest hle
    have hquot : (m * 2 ^ k : ℚ) / 2 ^ F.exponent (m * 2 ^ k) = (m * 2 ^ d : ℕ) := by
      rw [div_eq_iff (two_zpow_pos _).ne']
      conv_lhs => rw [← hd, add_comm, two_zpow_add]
      push_cast
      rw [zpow_natCast, mul_assoc]
    rw [round, hquot, nearest_natCast, ← hquot, div_mul_zpow]

/-- **What the format has is kept.** -/
theorem round_eq (h : F.Representable x) : F.round x = x := by
  obtain ⟨m, k, hm, hk, rfl⟩ := h
  rcases hm.lt_or_eq with hm | rfl
  · exact F.round_eq_of_lt hm hk
  · -- the power of two after the last full significand is one with one bit less
    have hp := F.precision_pos
    have hhalf : ((2 ^ F.precision : ℕ) : ℚ) * 2 ^ k =
        (2 ^ (F.precision - 1) : ℕ) * 2 ^ (k + 1) := by
      obtain ⟨p, hp⟩ : ∃ p, F.precision = p + 1 := ⟨F.precision - 1, by omega⟩
      rw [hp, Nat.add_sub_cancel, two_zpow_add]
      push_cast
      ring
    rw [hhalf]
    exact F.round_eq_of_lt (Nat.pow_lt_pow_right one_lt_two (by omega)) (by omega)

/-- **Rounding keeps the order.** -/
theorem round_mono (hx : 0 ≤ x) (h : x ≤ y) : F.round x ≤ F.round y := by
  rcases hx.eq_or_lt with rfl | hx
  · rw [round_zero]
    exact F.round_nonneg y
  rcases (F.exponent_mono hx h).lt_or_eq with hlt | heq
  · -- the greatest significand of the smaller exponent is the least normal one of the next
    have hy : F.Normal y :=
      F.normal_of_lt_exponent (hx.trans_le h) ((F.minExponent_le x).trans_lt hlt)
    have hp := F.precision_pos
    calc F.round x ≤ 2 ^ F.precision * 2 ^ F.exponent x :=
          mul_le_mul_of_nonneg_right (by exact_mod_cast F.nearest_significand_le hx)
            (two_zpow_pos _).le
      _ = 2 ^ ((F.precision : ℤ) + F.exponent x) := by rw [two_zpow_add, zpow_natCast]
      _ ≤ 2 ^ (((F.precision - 1 : ℕ) : ℤ) + F.exponent y) := two_zpow_le (by omega)
      _ = 2 ^ (F.precision - 1) * 2 ^ F.exponent y := by rw [two_zpow_add, zpow_natCast]
      _ ≤ F.round y :=
          mul_le_mul_of_nonneg_right (by exact_mod_cast hy.le_nearest_significand)
            (two_zpow_pos _).le
  · rw [round, round, heq]
    exact mul_le_mul_of_nonneg_right
      (Nat.cast_le.2 (nearest_mono (div_le_div_of_nonneg_right h (two_zpow_pos _).le)))
      (two_zpow_pos _).le

theorem round_le (hx : 0 ≤ x) (h : x ≤ y) (hy : F.Representable y) : F.round x ≤ y :=
  (F.round_mono hx h).trans_eq (F.round_eq hy)

theorem le_round (hx : 0 ≤ x) (h : x ≤ y) (hr : F.Representable x) : x ≤ F.round y :=
  (F.round_eq hr).symm.trans_le (F.round_mono hx h)

/-- The error is at most half of the last place. -/
theorem round_error (hx : 0 ≤ x) : |F.round x - x| ≤ 1 / 2 * 2 ^ F.exponent x := by
  have h := nearest_error (div_zpow_nonneg hx (F.exponent x))
  have hsplit : F.round x - x =
      (nearest (x / 2 ^ F.exponent x) - x / 2 ^ F.exponent x) * 2 ^ F.exponent x := by
    rw [sub_mul, div_mul_zpow, round]
  rw [hsplit, abs_mul, abs_of_pos (two_zpow_pos (F.exponent x))]
  exact mul_le_mul_of_nonneg_right h (two_zpow_pos _).le

variable {F} in
/-- Of a normal number that is at most one part in `2 ^ precision`. -/
theorem Normal.round_error (h : F.Normal x) : |F.round x - x| ≤ x / 2 ^ F.precision := by
  have hp := F.precision_pos
  have hsig : 2 ^ (F.precision - 1 : ℕ) * 2 ^ F.exponent x ≤ x :=
    (le_div_iff₀ (two_zpow_pos _)).1 h.le_significand
  have htwo : (2 : ℚ) ^ F.precision = 2 * 2 ^ (F.precision - 1) := by
    rw [← pow_succ', Nat.sub_add_cancel hp]
  calc |F.round x - x| ≤ 1 / 2 * 2 ^ F.exponent x := F.round_error h.pos.le
    _ = 2 ^ (F.precision - 1 : ℕ) * 2 ^ F.exponent x / 2 ^ F.precision := by
        rw [htwo]
        field_simp
    _ ≤ x / 2 ^ F.precision := div_le_div_of_nonneg_right hsig (by positivity)

theorem log_mul_zpow (hx : 0 < x) (k : ℤ) : Int.log 2 (x * 2 ^ k) = Int.log 2 x + k := by
  have hxk : 0 < x * 2 ^ k := mul_pos hx (two_zpow_pos k)
  apply le_antisymm
  · rw [log_le_iff hxk, show Int.log 2 x + k + 1 = Int.log 2 x + 1 + k by ring, two_zpow_add _ k]
    exact mul_lt_mul_of_pos_right ((log_le_iff hx).1 le_rfl) (two_zpow_pos k)
  · rw [le_log_iff hxk, two_zpow_add]
    exact mul_le_mul_of_nonneg_right ((le_log_iff hx).1 le_rfl) (two_zpow_pos k).le

variable {F} in
/-- **Above the subnormal numbers a power of two only scales.** -/
theorem Normal.round_scale (h : F.Normal x) {k : ℤ} (hk : 0 ≤ k) :
    F.round (x * 2 ^ k) = F.round x * 2 ^ k := by
  have hmul : F.Normal (x * 2 ^ k) := by
    have hone : (1 : ℚ) ≤ 2 ^ k := one_le_zpow₀ (by norm_num) hk
    exact h.le (le_mul_of_one_le_right h.pos.le hone)
  have hexp : F.exponent (x * 2 ^ k) = F.exponent x + k := by
    rw [hmul.exponent, h.exponent, log_mul_zpow h.pos]
    ring
  have hquot : x * 2 ^ k / 2 ^ F.exponent (x * 2 ^ k) = x / 2 ^ F.exponent x := by
    rw [hexp, two_zpow_add, mul_div_mul_right _ _ (two_zpow_pos k).ne']
  rw [round, hquot, hexp, two_zpow_add, round, mul_assoc]

variable {F} in
/-- A number of the format stays one when a power of two scales it up. -/
theorem Representable.scale (h : F.Representable x) {k : ℤ} (hk : 0 ≤ k) :
    F.Representable (x * 2 ^ k) := by
  obtain ⟨m, j, hm, hj, rfl⟩ := h
  exact ⟨m, j + k, hm, by omega, by rw [two_zpow_add, mul_assoc]⟩

end Format

end SsdCache.Binary
