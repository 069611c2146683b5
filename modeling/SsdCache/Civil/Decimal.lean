import Mathlib.Algebra.Order.Ring.Nat
import Mathlib.Data.List.Lex
import Mathlib.Data.Char
import Mathlib.Tactic.IntervalCases
import Mathlib.Tactic.Ring

/-!
# Decimal text

Zero-padded decimal numbers as `printf` writes them (`padded`) and `scanf` reads
them (`scanDigits`). Below `10 ^ w` the text has exactly `w` digits (`fixed`), so

* `scan_fixed`: reading what was written gives the number back;
* `unpadded_eq_fixed`: without padding it is one of these texts too;
* `fixed_lt`: the text is ordered as the numbers are;
* `append_lt`: texts of equal length decide the order of what they begin.
-/

namespace SsdCache.Civil

/-- The digit `d < 10`. -/
def digit (d : ℕ) : Char := Char.ofNat (48 + d)

/-- The decimal digits of `n`, without padding (`fuel` above `n` is enough). -/
def unpadded : ℕ → ℕ → List Char
  | 0, _ => []
  | fuel + 1, n => if n < 10 then [digit n] else unpadded fuel (n / 10) ++ [digit (n % 10)]

/-- `printf "%0wd"` of a natural number. -/
def padded (w n : ℕ) : List Char :=
  List.replicate (w - (unpadded (n + 1) n).length) '0' ++ unpadded (n + 1) n

/-- Exactly `w` digits. -/
def fixed : ℕ → ℕ → List Char
  | 0, _ => []
  | w + 1, n => fixed w (n / 10) ++ [digit (n % 10)]

/-- Read a run of digits, most significant first. -/
def scanDigits : ℕ → List Char → ℕ × List Char
  | acc, [] => (acc, [])
  | acc, c :: cs => if c.isDigit then scanDigits (acc * 10 + (c.toNat - 48)) cs else (acc, c :: cs)

@[simp] theorem length_fixed (w n : ℕ) : (fixed w n).length = w := by
  induction w generalizing n with
  | zero => rfl
  | succ w ih => simp [fixed, ih]

theorem fixed_zero (w : ℕ) : fixed w 0 = List.replicate w '0' := by
  induction w with
  | zero => rfl
  | succ w ih =>
    simp only [fixed, Nat.zero_div, Nat.zero_mod, ih, List.replicate_succ']
    rfl

/-- Below `10 ^ w`, padding to `w` gives exactly `w` digits. -/
theorem pad_eq_fixed : ∀ {fuel w n : ℕ}, n < fuel → n < 10 ^ (w + 1) →
    List.replicate (w + 1 - (unpadded fuel n).length) '0' ++ unpadded fuel n = fixed (w + 1) n := by
  intro fuel
  induction fuel with
  | zero => intro w n h; omega
  | succ fuel ih =>
    intro w n hf hw
    by_cases hn : n < 10
    · have h0 : n / 10 = 0 := by omega
      have hmod : n % 10 = n := by omega
      simp [unpadded, hn, fixed, h0, hmod, fixed_zero]
    · cases w with
      | zero => omega
      | succ w =>
        -- one digit less on the left is one zero less of padding
        have hrec := ih (w := w) (n := n / 10) (by omega) (by rw [pow_succ] at hw; omega)
        have hlen : w + 1 + 1 - ((unpadded fuel (n / 10)).length + 1) =
            w + 1 - (unpadded fuel (n / 10)).length := by omega
        rw [fixed, ← hrec]
        simp [unpadded, hn, hlen]

theorem padded_eq {w n : ℕ} (hw : 0 < w) (h : n < 10 ^ w) : padded w n = fixed w n := by
  obtain ⟨v, rfl⟩ : ∃ v, w = v + 1 := ⟨w - 1, by omega⟩
  exact pad_eq_fixed (Nat.lt_succ_self n) h

theorem digit_cases {d : ℕ} (h : d < 10) : (digit d).isDigit = true ∧ (digit d).toNat = 48 + d := by
  interval_cases d <;> decide

theorem digit_lt {a b : ℕ} (ha : a < b) (hb : b < 10) : digit a < digit b := by
  interval_cases b <;> interval_cases a <;> decide

theorem scanDigits_stop {acc : ℕ} {rest : List Char} (h : ∀ c ∈ rest.head?, c.isDigit = false) :
    scanDigits acc rest = (acc, rest) := by
  cases rest with
  | nil => rfl
  | cons c cs =>
    have hc : c.isDigit = false := h c (by simp)
    simp [scanDigits, hc]

/-- **Reading what was written**, up to the first character that is no digit. -/
theorem scan_fixed {rest : List Char} (h : ∀ c ∈ rest.head?, c.isDigit = false) :
    ∀ (w : ℕ) {n acc : ℕ}, n < 10 ^ w →
      scanDigits acc (fixed w n ++ rest) = (acc * 10 ^ w + n, rest) := by
  -- the last digit is read when the prefix has been; hence the general tail
  have key : ∀ (w : ℕ) {n acc : ℕ} (tail : List Char), n < 10 ^ w →
      scanDigits acc (fixed w n ++ tail) = scanDigits (acc * 10 ^ w + n) tail := by
    intro w
    induction w with
    | zero => intro n acc tail hn; simp [fixed, show n = 0 by simpa using hn]
    | succ w ih =>
      intro n acc tail hn
      obtain ⟨hd, hv⟩ := digit_cases (Nat.mod_lt n (show 0 < 10 by omega))
      rw [fixed, List.append_assoc, ih _ (by rw [pow_succ] at hn; omega)]
      simp only [List.singleton_append, scanDigits, hd, if_true, hv]
      congr 1
      rw [pow_succ]
      have := Nat.div_add_mod n 10
      ring_nf
      omega
  intro w n acc hn
  rw [key w rest hn, scanDigits_stop h]

theorem unpadded_eq_fixed : ∀ {fuel n : ℕ}, n < fuel →
    ∃ w, 0 < w ∧ n < 10 ^ w ∧ unpadded fuel n = fixed w n := by
  intro fuel
  induction fuel with
  | zero => intro n h; omega
  | succ fuel ih =>
    intro n h
    by_cases hn : n < 10
    · refine ⟨1, one_pos, by simpa using hn, ?_⟩
      rw [unpadded, if_pos hn, fixed, fixed, Nat.mod_eq_of_lt hn, List.nil_append]
    · obtain ⟨w, hw, hlt, heq⟩ := ih (n := n / 10) (by omega)
      refine ⟨w + 1, by omega, by rw [pow_succ]; omega, ?_⟩
      rw [unpadded, if_neg hn, fixed, heq]

theorem isDigit_of_mem_fixed {w n : ℕ} {c : Char} (h : c ∈ fixed w n) : c.isDigit = true := by
  induction w generalizing n with
  | zero => exact absurd h List.not_mem_nil
  | succ w ih =>
    rw [fixed, List.mem_append, List.mem_singleton] at h
    rcases h with h | rfl
    · exact ih h
    · exact (digit_cases (Nat.mod_lt n (show 0 < 10 by omega))).1

/-! ## Order -/

/-- Texts of equal length decide the order of what they begin. -/
theorem append_lt : ∀ {a b : List Char} (x y : List Char), a.length = b.length → a < b →
    a ++ x < b ++ y
  | [], [], _, _, _, h => absurd h (lt_irrefl _)
  | a :: as, b :: bs, x, y, hl, h => by
    rw [List.cons_lt_cons_iff] at h
    rw [List.cons_append, List.cons_append, List.cons_lt_cons_iff]
    rcases h with h | ⟨rfl, h⟩
    · exact .inl h
    · exact .inr ⟨rfl, append_lt x y (by simpa using hl) h⟩

theorem append_lt_right (s : List Char) {x y : List Char} (h : x < y) : s ++ x < s ++ y := by
  induction s with
  | nil => exact h
  | cons c s ih => rw [List.cons_append, List.cons_append, List.cons_lt_cons_iff]; exact .inr ⟨rfl, ih⟩

/-- **Fixed-width text is ordered as the numbers are.** -/
theorem fixed_lt {w : ℕ} : ∀ {m n : ℕ}, n < 10 ^ w → m < n → fixed w m < fixed w n := by
  induction w with
  | zero => intro m n hn hm; simp at hn; omega
  | succ w ih =>
    intro m n hn hm
    simp only [fixed]
    rcases Nat.lt_or_ge (m / 10) (n / 10) with h | h
    · exact append_lt _ _ (by simp) (ih (by rw [pow_succ] at hn; omega) h)
    · -- the leading digits are equal, so the last one decides
      have heq : m / 10 = n / 10 := by omega
      rw [heq]
      apply append_lt_right
      rw [List.cons_lt_cons_iff]
      exact .inl (digit_lt (by omega) (Nat.mod_lt n (by omega)))

end SsdCache.Civil
