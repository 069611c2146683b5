import SsdCache.Proof.ConfigRoundTrip

/-!
# The numeric settings

`load_config_file` reads two numbers with `std::stoll` and `std::stoull`, which skip white
space, take a sign and stop at the first character that is no digit; `stoull` negates in 64
bits, and the product with a mebibyte wraps.

* `wcsInteger_of_isInteger`: the text of an integer is read as the integer.
* `exists_configOf_iff`: when the values are loaded.
* `numbersExact_iff`: **the settings are read exactly or rejected if and only if** the file
  is rejected or the texts are integers, the free space without a sign and below `2 ^ 44`.
-/

namespace SsdCache

open Civil

variable {ctype : CType} {v : WString} {n : ℤ} {m : ℕ}

/-! ## Numerals -/

/-- `L'-'` -/
def minus : UInt16 := 0x2D

/-- `L'+'` -/
def plus : UInt16 := 0x2B

def IsDigit (u : UInt16) : Prop := 0x30 ≤ u ∧ u ≤ 0x39

/-- The value of a text of decimal digits. -/
def numeral (v : WString) : ℕ := v.foldl (fun n u => n * 10 + (u.toNat - 0x30)) 0

/-- A decimal numeral without a sign. -/
structure IsNumeral (v : WString) (m : ℕ) : Prop where
  ne_nil : v ≠ []
  digits : ∀ u ∈ v, IsDigit u
  value : numeral v = m

/-- A decimal numeral, maybe with a sign. -/
inductive IsInteger : WString → ℤ → Prop
  | numeral {v : WString} {m : ℕ} : IsNumeral v m → IsInteger v m
  | plus {v : WString} {m : ℕ} : IsNumeral v m → IsInteger (plus :: v) m
  | minus {v : WString} {m : ℕ} : IsNumeral v m → IsInteger (minus :: v) (-m)

theorem IsDigit.char {u : UInt16} (h : IsDigit u) :
    (Char.ofNat u.toNat).isDigit = true ∧ (Char.ofNat u.toNat).toNat = u.toNat := by
  obtain ⟨hlow, hhigh⟩ := h
  rw [UInt16.le_iff_toNat_le] at hlow hhigh
  have h1 : 48 ≤ u.toNat := hlow
  have h2 : u.toNat ≤ 57 := hhigh
  have hnat : (Char.ofNat u.toNat).toNat = u.toNat := toNat_ofNat_of_valid (.inl (by omega))
  refine ⟨?_, hnat⟩
  have hval : (Char.ofNat u.toNat).val.toNat = u.toNat := hnat
  simp only [Char.isDigit, Bool.and_eq_true, decide_eq_true_eq, ge_iff_le, UInt32.le_iff_toNat_le,
    hval]
  exact ⟨h1, h2⟩

/-- Digits are scanned to the end. -/
theorem scanDigits_digits (h : ∀ u ∈ v, IsDigit u) (acc : ℕ) :
    scanDigits acc (v.map fun u => Char.ofNat u.toNat) =
      (v.foldl (fun n u => n * 10 + (u.toNat - 0x30)) acc, []) := by
  induction v generalizing acc with
  | nil => rfl
  | cons u v ih =>
    obtain ⟨hu, hv⟩ := List.forall_mem_cons.1 h
    obtain ⟨hdigit, hnat⟩ := hu.char
    rw [List.map_cons, scanDigits, if_pos hdigit, hnat, ih hv, List.foldl_cons]

theorem IsNumeral.wcsDigits (h : IsNumeral v m) :
    wcsDigits (v.map fun u => Char.ofNat u.toNat) = some m := by
  cases v with
  | nil => exact absurd rfl h.ne_nil
  | cons u v =>
    have hscan := scanDigits_digits h.digits 0
    obtain ⟨hdigit, -⟩ := (h.digits u List.mem_cons_self).char
    rw [List.map_cons] at hscan ⊢
    simp only [SsdCache.wcsDigits, hdigit, if_true, hscan]
    exact congrArg some h.value

/-- No white space is skipped before a graphic character. -/
theorem dropWhile_graphic {u : UInt16} (hlow : 0x21 ≤ u) (hhigh : u ≤ 0x7E) (v : WString) :
    (u :: v).dropWhile ctype.iswspace = u :: v :=
  List.dropWhile_cons_of_neg (by rw [ctype.iswspace_graphic u hlow hhigh]; exact Bool.false_ne_true)

/-- **The text of an integer is read as the integer.** -/
theorem wcsInteger_of_isInteger (h : IsInteger v n) : wcsInteger ctype v = some n := by
  cases h with
  | @numeral _ m h =>
    have hdigits := h.wcsDigits
    cases v with
    | nil => exact absurd rfl h.ne_nil
    | cons u v =>
      have hu := h.digits u List.mem_cons_self
      have hlow : 0x21 ≤ u := UInt16.le_trans (by decide) hu.1
      have hhigh : u ≤ 0x7E := UInt16.le_trans hu.2 (by decide)
      unfold wcsInteger
      rw [dropWhile_graphic hlow hhigh]
      rw [List.map_cons] at hdigits ⊢
      -- a digit is no sign
      split
      · rename_i heq
        rw [(List.cons.inj heq).1] at hdigits
        cases hdigits
      · rename_i heq
        rw [(List.cons.inj heq).1] at hdigits
        cases hdigits
      · rw [hdigits]
        rfl
  | plus h | minus h =>
    have hdigits := h.wcsDigits
    unfold wcsInteger
    rw [dropWhile_graphic (by decide) (by decide), List.map_cons]
    show (wcsDigits _).map _ = _
    rw [hdigits]
    rfl

/-! ## What is read -/

/-- `std::stoll` throws: no digit comes, or the number does not fit 64 bits. -/
def StollRejects (ctype : CType) (v : WString) : Prop :=
  ∀ n, wcsInteger ctype v = some n → ¬ (-9223372036854775808 ≤ n ∧ n ≤ 9223372036854775807)

/-- `std::stoull` throws: no digit comes, or the number without its sign does not fit. -/
def StoullRejects (ctype : CType) (v : WString) : Prop :=
  ∀ n, wcsInteger ctype v = some n → 18446744073709551615 < n.natAbs

theorem stoll_eq_ok : stoll ctype v = .ok n ↔
    wcsInteger ctype v = some n ∧ -9223372036854775808 ≤ n ∧ n ≤ 9223372036854775807 := by
  unfold stoll
  cases wcsInteger ctype v with
  | none => simp
  | some k =>
    simp only [Option.some.injEq]
    split_ifs with hk
    · rw [Except.ok.injEq]
      exact ⟨fun heq => heq ▸ ⟨rfl, hk⟩, And.left⟩
    · refine iff_of_false nofun ?_
      rintro ⟨rfl, h⟩
      exact hk h

theorem stoull_eq_ok {bytes : UInt64} : stoull ctype v = .ok bytes ↔
    ∃ n, wcsInteger ctype v = some n ∧ n.natAbs ≤ 18446744073709551615 ∧
      bytes = UInt64.ofInt n := by
  unfold stoull
  cases wcsInteger ctype v with
  | none => simp
  | some k =>
    simp only [Option.some.injEq, exists_eq_left']
    split_ifs with hk
    · rw [Except.ok.injEq]
      exact ⟨fun heq => ⟨hk, heq.symm⟩, fun h => h.2.symm⟩
    · exact iff_of_false nofun fun h => hk h.1

/-- The text of `copy_delay_seconds` is an integer. -/
def DelayPlain (value : Option WString) : Prop := ∀ v ∈ value, ∃ n, IsInteger v n

/-- The text of `min_free_space_mb` is an integer without sign, below `2 ^ 44`. -/
def FreePlain (value : Option WString) : Prop :=
  ∀ v ∈ value, v ≠ [] → ∃ m < 17592186044416, IsNumeral v m

/-- The delay is the integer that its text says. -/
def DelayExact (value : Option WString) (delay : ℤ) : Prop := ∀ v ∈ value, IsInteger v delay

/-- The free space is the product, as an integer, that its text says. -/
def FreeExact (value : Option WString) (bytes : UInt64) : Prop :=
  ∀ v ∈ value, v ≠ [] → ∃ m, IsNumeral v m ∧ bytes.toNat = m * 1048576

/-- **The delay is read exactly if and only if its text is an integer.** -/
theorem delayExact_iff {value : Option WString} {fallback delay : ℤ}
    (h : readCopyDelay ctype value fallback = .ok delay) :
    DelayExact value delay ↔ DelayPlain value := by
  refine ⟨fun hexact v hv => ⟨delay, hexact v hv⟩, fun hplain v hv => ?_⟩
  obtain ⟨n, hn⟩ := hplain v hv
  obtain rfl := Option.mem_def.1 hv
  have hread := (stoll_eq_ok.1 h).1
  rw [wcsInteger_of_isInteger hn] at hread
  exact Option.some.inj hread ▸ hn

/-- **The free space is read exactly if and only if its text is a numeral below `2 ^ 44`.** -/
theorem freeExact_iff {value : Option WString} {fallback bytes : UInt64}
    (h : readMinFree ctype value fallback = .ok bytes) :
    FreeExact value bytes ↔ FreePlain value := by
  have hlt := bytes.toNat_lt
  constructor
  · intro hexact v hv hne
    obtain ⟨m, hm, heq⟩ := hexact v hv hne
    exact ⟨m, by omega, hm⟩
  · intro hplain v hv hne
    obtain ⟨m, hsmall, hm⟩ := hplain v hv hne
    obtain rfl := Option.mem_def.1 hv
    obtain ⟨u, w, rfl⟩ := List.exists_cons_of_ne_nil hne
    cases hs : stoull ctype (u :: w) with
    | error e => simp only [readMinFree, hs] at h; cases h
    | ok k =>
      simp only [readMinFree, hs] at h
      obtain rfl := Except.ok.inj h
      obtain ⟨n, hn, -, rfl⟩ := stoull_eq_ok.1 hs
      rw [wcsInteger_of_isInteger (.numeral hm)] at hn
      obtain rfl := Option.some.inj hn
      refine ⟨m, hm, ?_⟩
      -- neither the number nor its product with a mebibyte wraps
      have hk : (UInt64.ofInt m).toNat = m := by
        rw [UInt64.ofInt, Int.emod_eq_of_lt (by omega) (by omega), Int.toNat_natCast]
        exact UInt64.toNat_ofNat_of_lt (lt_trans hsmall (by decide))
      rw [UInt64.toNat_mul, hk, show mebibyte.toNat = 1048576 from rfl]
      omega

/-! ## The file -/

/-- What the file gives the settings. -/
def modeText (values : List (WString × WString)) : Option WString := values.lookup (wide "mode")

def delayText (values : List (WString × WString)) : Option WString :=
  values.lookup (wide "copy_delay_seconds")

def freeText (values : List (WString × WString)) : Option WString :=
  values.lookup (wide "min_free_space_mb")

variable {values : List (WString × WString)} {config : AppConfig}

/-- The mode is none of the three. -/
def UnknownMode (ctype : CType) (value : Option WString) : Prop :=
  ∃ v ∈ value, v ≠ [] ∧
    v.map ctype.towlower ∉ [wide "disabled", wide "monitor", wide "serve"]

/-- A mode, or a number that `std::stoll` or `std::stoull` throws for. -/
def Rejected (ctype : CType) (values : List (WString × WString)) : Prop :=
  UnknownMode ctype (modeText values) ∨ (∃ v ∈ delayText values, StollRejects ctype v) ∨
    ∃ v ∈ freeText values, v ≠ [] ∧ StoullRejects ctype v

theorem exists_readMode_iff {value : Option WString} :
    (∃ mode, readMode ctype value = .ok mode) ↔ ¬ UnknownMode ctype value := by
  unfold UnknownMode
  match value with
  | none => exact iff_of_true ⟨none, rfl⟩ (by simp)
  | some [] => exact iff_of_true ⟨none, rfl⟩ (by simp)
  | some (u :: w) =>
    simp only [readMode, appModeFromWstring, Option.mem_some_iff, exists_eq_left', ne_eq,
      reduceCtorEq, not_false_eq_true, true_and, not_not, List.mem_cons, List.not_mem_nil, or_false]
    split_ifs with hd hm hs
    · exact iff_of_true ⟨_, rfl⟩ (.inl hd)
    · exact iff_of_true ⟨_, rfl⟩ (.inr (.inl hm))
    · exact iff_of_true ⟨_, rfl⟩ (.inr (.inr hs))
    · refine iff_of_false (by rintro ⟨mode, hmode⟩; cases hmode) ?_
      rintro (h | h | h)
      · exact hd h
      · exact hm h
      · exact hs h

theorem exists_readCopyDelay_iff {value : Option WString} (fallback : ℤ) :
    (∃ delay, readCopyDelay ctype value fallback = .ok delay) ↔
      ¬ ∃ v ∈ value, StollRejects ctype v := by
  match value with
  | none => exact iff_of_true ⟨fallback, rfl⟩ (by simp)
  | some v =>
    simp only [readCopyDelay, stoll_eq_ok, StollRejects, Option.mem_some_iff, exists_eq_left']
    push Not
    rfl

theorem exists_readMinFree_iff {value : Option WString} (fallback : UInt64) :
    (∃ bytes, readMinFree ctype value fallback = .ok bytes) ↔
      ¬ ∃ v ∈ value, v ≠ [] ∧ StoullRejects ctype v := by
  match value with
  | none => exact iff_of_true ⟨fallback, rfl⟩ (by simp)
  | some [] => exact iff_of_true ⟨fallback, rfl⟩ (by simp)
  | some (u :: w) =>
    have hread : (∃ bytes, readMinFree ctype (some (u :: w)) fallback = .ok bytes) ↔
        ∃ bytes, stoull ctype (u :: w) = .ok bytes := by
      simp only [readMinFree]
      cases stoull ctype (u :: w) with
      | error e => exact iff_of_false (by rintro ⟨b, hb⟩; cases hb) (by rintro ⟨b, hb⟩; cases hb)
      | ok k => exact iff_of_true ⟨_, rfl⟩ ⟨_, rfl⟩
    rw [hread]
    simp only [stoull_eq_ok, StoullRejects, Option.mem_some_iff, exists_eq_left', ne_eq,
      reduceCtorEq, not_false_eq_true, true_and]
    push Not
    constructor
    · rintro ⟨bytes, n, hn, hle, -⟩
      exact ⟨n, hn, hle⟩
    · rintro ⟨n, hn, hle⟩
      exact ⟨_, n, hn, hle, rfl⟩

/-- What the loaded configuration was read from. -/
theorem readers_of_configOf (h : configOf ctype values = .ok config) :
    (∃ mode, readMode ctype (modeText values) = .ok mode) ∧
      readCopyDelay ctype (delayText values) ({} : AppConfig).copyDelay = .ok config.copyDelay ∧
      readMinFree ctype (freeText values) ({} : AppConfig).minFreeBytes =
        .ok config.minFreeBytes := by
  obtain ⟨mode, hmode, h⟩ := exists_of_bind_ok h
  obtain ⟨delay, hdelay, h⟩ := exists_of_bind_ok h
  obtain ⟨free, hfree, h⟩ := exists_of_bind_ok h
  obtain rfl := Except.ok.inj h
  exact ⟨⟨mode, hmode⟩, hdelay, hfree⟩

/-- **The values are loaded if and only if none of them is rejected.** -/
theorem exists_configOf_iff : (∃ config, configOf ctype values = .ok config) ↔
    ¬ Rejected ctype values := by
  unfold Rejected
  rw [not_or, not_or, ← exists_readMode_iff,
    ← exists_readCopyDelay_iff ({} : AppConfig).copyDelay,
    ← exists_readMinFree_iff ({} : AppConfig).minFreeBytes]
  constructor
  · rintro ⟨config, h⟩
    obtain ⟨hmode, hdelay, hfree⟩ := readers_of_configOf h
    exact ⟨hmode, ⟨_, hdelay⟩, ⟨_, hfree⟩⟩
  · rintro ⟨⟨mode, hmode⟩, ⟨delay, hdelay⟩, free, hfree⟩
    unfold modeText at hmode
    unfold delayText at hdelay
    unfold freeText at hfree
    simp only [configOf, hmode, hdelay, hfree]
    exact ⟨_, rfl⟩

/-- If the file is loaded, both numbers are what their texts say. -/
def NumbersExact (ctype : CType) (file : Option Bytes) : Prop :=
  ∀ values config, readKeyValues ctype file = .ok values →
    loadConfigFile ctype file = .ok config →
    DelayExact (delayText values) config.copyDelay ∧ FreeExact (freeText values) config.minFreeBytes

/-- **The numeric settings are read exactly or rejected** if and only if the file is rejected,
or the delay is an integer and the free space a numeral without sign below `2 ^ 44`. -/
theorem numbersExact_iff (ctype : CType) (file : Option Bytes) :
    NumbersExact ctype file ↔ ∀ values, readKeyValues ctype file = .ok values →
      Rejected ctype values ∨ (DelayPlain (delayText values) ∧ FreePlain (freeText values)) := by
  have hload {values : List (WString × WString)} (hread : readKeyValues ctype file = .ok values) :
      loadConfigFile ctype file = configOf ctype values := by
    unfold loadConfigFile
    rw [hread]
    rfl
  constructor
  · intro hexact values hread
    by_cases hrejected : Rejected ctype values
    · exact .inl hrejected
    · obtain ⟨config, hconfig⟩ := exists_configOf_iff.2 hrejected
      obtain ⟨hdelay, hfree⟩ := hexact values config hread ((hload hread).trans hconfig)
      obtain ⟨-, hdelay', hfree'⟩ := readers_of_configOf hconfig
      exact .inr ⟨(delayExact_iff hdelay').1 hdelay, (freeExact_iff hfree').1 hfree⟩
  · intro hplain values config hread hconfig
    rw [hload hread] at hconfig
    obtain ⟨-, hdelay, hfree⟩ := readers_of_configOf hconfig
    rcases hplain values hread with hrejected | ⟨hdelay', hfree'⟩
    · exact absurd hrejected (exists_configOf_iff.1 ⟨config, hconfig⟩)
    · exact ⟨(delayExact_iff hdelay).2 hdelay', (freeExact_iff hfree).2 hfree'⟩

/-- `min_free_space_mb=-1` -/
def negativeFreeLines : List Line := [asciiLine "min_free_space_mb" ['-', '1']]

/-- The number is negated in 64 bits and its product wraps. -/
theorem negative_free_space_wraps :
    loadConfigFile asciiCType (some (negativeFreeLines.flatMap Line.write)) =
        .ok { minFreeBytes := 18446744073708503040 } ∧
      ¬ NumbersExact asciiCType (some (negativeFreeLines.flatMap Line.write)) := by
  have hlegible : ∀ line ∈ negativeFreeLines, line.Legible asciiCType := by
    intro line hline
    rw [List.mem_singleton.1 hline]
    exact legible_asciiLine (by decide) (by decide)
  have hread := readKeyValues_lines hlegible
  have hload : loadConfigFile asciiCType (some (negativeFreeLines.flatMap Line.write)) =
      .ok { minFreeBytes := 18446744073708503040 } := by
    rw [load_lines hlegible]
    decide
  refine ⟨hload, fun h => ?_⟩
  obtain ⟨-, hfree⟩ := h _ _ hread hload
  obtain ⟨m, hm, -⟩ := hfree [minus, 0x31] (by decide) (by decide)
  obtain ⟨hlow, -⟩ := hm.digits minus List.mem_cons_self
  exact absurd hlow (by decide)

end SsdCache
