import SsdCache.Spec.Utf

/-!
# UTF-16 and its code points

* `codePoints_injective`: a path is determined by its code points.
* `wellFormed_append_cons`: a unit that is no surrogate cuts a text into texts.
* `decode_of_encode`, `wellFormed_of_decode`: what was written is read back, and what was read
  can be written.
* `lineFeed_mem_iff`: the line feeds of the bytes are those of the text.
-/

namespace SsdCache

/-- The UTF-16 units of a code point. -/
def codeUnits (n : ℕ) : WString :=
  if n < 0x10000 then [n.toUInt16]
  else [(0xD800 + (n - 0x10000) / 0x400).toUInt16, (0xDC00 + (n - 0x10000) % 0x400).toUInt16]

theorem utf16Units_eq (c : Char) : utf16Units c = codeUnits c.toNat := rfl

theorem le_unit_iff {n : ℕ} (hn : n < 65536) (u : UInt16) : n.toUInt16 ≤ u ↔ n ≤ u.toNat := by
  rw [UInt16.le_iff_toNat_le, Nat.toUInt16, UInt16.toNat_ofNat', Nat.mod_eq_of_lt hn]

theorem unit_lt_iff {n : ℕ} (hn : n < 65536) (u : UInt16) : u < n.toUInt16 ↔ u.toNat < n := by
  rw [UInt16.lt_iff_toNat_lt, Nat.toUInt16, UInt16.toNat_ofNat', Nat.mod_eq_of_lt hn]

theorem toUInt16_eq {n : ℕ} {u : UInt16} (h : n = u.toNat) : n.toUInt16 = u := by
  rw [h, Nat.toUInt16, UInt16.ofNat_toNat]

/-- The first unit of a surrogate pair, and the second. -/
theorem high_iff (u : UInt16) :
    (0xD800 ≤ u ∧ u < 0xDC00) ↔ (0xD800 ≤ u.toNat ∧ u.toNat < 0xDC00) :=
  and_congr (le_unit_iff (show 0xD800 < 65536 by omega) u)
    (unit_lt_iff (show 0xDC00 < 65536 by omega) u)

theorem low_iff (u : UInt16) :
    (0xDC00 ≤ u ∧ u < 0xE000) ↔ (0xDC00 ≤ u.toNat ∧ u.toNat < 0xE000) :=
  and_congr (le_unit_iff (show 0xDC00 < 65536 by omega) u)
    (unit_lt_iff (show 0xE000 < 65536 by omega) u)

theorem codeUnits_unit (u : UInt16) : codeUnits u.toNat = [u] := by
  have hu : u.toNat < 65536 := u.toNat_lt
  unfold codeUnits
  rw [if_pos hu, toUInt16_eq rfl]

theorem codeUnits_pair {u v : UInt16} (h : 0xD800 ≤ u ∧ u < 0xDC00 ∧ 0xDC00 ≤ v ∧ v < 0xE000) :
    codeUnits (0x10000 + (u.toNat - 0xD800) * 0x400 + (v.toNat - 0xDC00)) = [u, v] := by
  have hu := (high_iff u).1 ⟨h.1, h.2.1⟩
  have hv := (low_iff v).1 h.2.2
  unfold codeUnits
  rw [if_neg (by omega), toUInt16_eq (u := u) (by omega), toUInt16_eq (u := v) (by omega)]

/-- The units of the code points of a path are the path. -/
theorem flatMap_codePoints (w : WString) : (codePoints w).flatMap codeUnits = w := by
  fun_induction codePoints w with
  | case1 => rfl
  | case2 u => rw [List.flatMap_cons, codeUnits_unit]; rfl
  | case3 u v s h ih => rw [List.flatMap_cons, codeUnits_pair h, ih]; rfl
  | case4 u v s h ih => rw [List.flatMap_cons, codeUnits_unit, ih]; rfl

theorem codePoints_injective : Function.Injective codePoints := by
  intro w w' h
  rw [← flatMap_codePoints w, ← flatMap_codePoints w', h]

/-! ## Surrogates -/

/-- Half of a surrogate pair. -/
def IsSurrogate (u : UInt16) : Prop := 0xD800 ≤ u ∧ u < 0xE000

/-- **A unit that is no surrogate cuts a text into texts.** -/
theorem wellFormed_append_cons {u : UInt16} (hu : ¬ IsSurrogate u) (a b : WString) :
    wellFormed (a ++ u :: b) = (wellFormed a && wellFormed b) := by
  have hlow : ¬ (0xDC00 ≤ u ∧ u < 0xE000) := by
    unfold IsSurrogate at hu
    grind
  have hplain : (u < 0xD800 || 0xE000 ≤ u) = true := by
    unfold IsSurrogate at hu
    grind
  have hhigh : (0xD800 ≤ u && u < 0xDC00) = false := by
    unfold IsSurrogate at hu
    grind
  fun_induction wellFormed a with
  | case1 =>
    cases b with
    | nil => simpa [wellFormed] using hplain
    | cons v b => simp only [List.nil_append, wellFormed, hhigh, hplain]; simp
  | case2 x =>
    simp only [List.cons_append, List.nil_append, wellFormed]
    cases b with
    | nil => grind [wellFormed]
    | cons v b => grind [wellFormed]
  | case3 x y s h ih =>
    simp only [List.cons_append, wellFormed, h, if_true, ih]
    grind
  | case4 x y s h ih =>
    simp only [List.cons_append, wellFormed, h] at ih ⊢
    grind

/-- The code points of a text are characters. -/
theorem isValidChar_of_wellFormed {w : WString} (h : wellFormed w = true) :
    ∀ n ∈ codePoints w, n.isValidChar := by
  fun_induction codePoints w with
  | case1 => exact fun n hn => absurd hn List.not_mem_nil
  | case2 u =>
    intro n hn
    obtain rfl := List.mem_singleton.1 hn
    have hu := u.toNat_lt
    simp only [wellFormed, Bool.or_eq_true, decide_eq_true_eq, UInt16.lt_iff_toNat_lt,
      UInt16.le_iff_toNat_le] at h
    unfold Nat.isValidChar
    simp at h
    omega
  | case3 u v s hpair ih =>
    have hu := (high_iff u).1 ⟨hpair.1, hpair.2.1⟩
    have hv := (low_iff v).1 hpair.2.2
    have hs : wellFormed s = true := by grind [wellFormed]
    refine List.forall_mem_cons.2 ⟨?_, ih hs⟩
    unfold Nat.isValidChar
    omega
  | case4 u v s hpair ih =>
    have hs : wellFormed (v :: s) = true := by grind [wellFormed]
    have hu : u < 0xD800 ∨ 0xE000 ≤ u := by grind [wellFormed]
    refine List.forall_mem_cons.2 ⟨?_, ih hs⟩
    have hlt := u.toNat_lt
    rw [UInt16.lt_iff_toNat_lt, UInt16.le_iff_toNat_le] at hu
    unfold Nat.isValidChar
    simp at hu
    omega

theorem toNat_ofNat_of_valid {n : ℕ} (h : n.isValidChar) : (Char.ofNat n).toNat = n := by
  rw [Char.ofNat, dif_pos h]
  rfl

/-- A text that was written as characters is the text. -/
theorem utf8ToWide_of_wideToUtf8 {w : WString} {s : String} (h : wideToUtf8 w = .ok s) :
    utf8ToWide s = w := by
  unfold wideToUtf8 at h
  split_ifs at h with hw
  obtain rfl := Except.ok.inj h
  have hunits : ∀ n ∈ codePoints w, utf16Units (Char.ofNat n) = codeUnits n := by
    intro n hn
    rw [utf16Units_eq, toNat_ofNat_of_valid (isValidChar_of_wellFormed hw n hn)]
  unfold utf8ToWide
  rw [String.toList_ofList, List.flatMap_map, List.flatMap_congr hunits, flatMap_codePoints]

theorem wellFormed_utf16Units (c : Char) (w : WString) :
    wellFormed (utf16Units c ++ w) = wellFormed w := by
  have hc : c.toNat < 0xD800 ∨ (0xDFFF < c.toNat ∧ c.toNat < 0x110000) := c.valid
  unfold utf16Units
  split_ifs with h
  · -- a unit by itself is no surrogate
    have hu : ¬ IsSurrogate c.toNat.toUInt16 := by
      unfold IsSurrogate
      rw [UInt16.le_iff_toNat_le, UInt16.lt_iff_toNat_lt, Nat.toUInt16, UInt16.toNat_ofNat',
        Nat.mod_eq_of_lt h]
      simp
      omega
    simpa [wellFormed] using wellFormed_append_cons hu [] w
  · have hhigh := (high_iff (0xD800 + (c.toNat - 0x10000) / 0x400).toUInt16).2
      (by rw [Nat.toUInt16, UInt16.toNat_ofNat', Nat.mod_eq_of_lt (by omega)]; omega)
    have hlow := (low_iff (0xDC00 + (c.toNat - 0x10000) % 0x400).toUInt16).2
      (by rw [Nat.toUInt16, UInt16.toNat_ofNat', Nat.mod_eq_of_lt (by omega)]; omega)
    simp only [List.cons_append, List.nil_append, wellFormed, hhigh.1, hhigh.2, hlow.1, hlow.2]
    simp

/-- Characters make a text. -/
theorem wellFormed_utf8ToWide (s : String) : wellFormed (utf8ToWide s) = true := by
  unfold utf8ToWide
  induction s.toList with
  | nil => rfl
  | cons c cs ih => rw [List.flatMap_cons, wellFormed_utf16Units, ih]

/-! ## Bytes -/

theorem utf8Bytes_eq (s : String) : utf8Bytes s = s.toList.flatMap String.utf8EncodeChar := by
  have hs : s.toByteArray = s.toList.utf8Encode := by
    rw [← String.toByteArray_ofList, String.ofList_toList]
  unfold utf8Bytes
  rw [hs, List.utf8Encode, List.data_toByteArray, List.toList_toArray]

theorem toByteArray_utf8Bytes (s : String) : (utf8Bytes s).toByteArray = s.toByteArray := by
  ext1
  rw [List.data_toByteArray, utf8Bytes, Array.toArray_toList]

theorem decodeUtf8_utf8Bytes (s : String) : decodeUtf8 (utf8Bytes s) = .ok (utf8ToWide s) := by
  unfold decodeUtf8 String.fromUTF8?
  rw [toByteArray_utf8Bytes, dif_pos s.isValidUTF8]
  rfl

/-- Bytes that are read are those of a text. -/
theorem exists_of_decode {b : Bytes} {w : WString} (h : decodeUtf8 b = .ok w) :
    ∃ s, b = utf8Bytes s ∧ w = utf8ToWide s := by
  unfold decodeUtf8 String.fromUTF8? at h
  by_cases hb : b.toByteArray.IsValidUTF8
  · rw [dif_pos hb] at h
    refine ⟨.fromUTF8 b.toByteArray hb, ?_, (Except.ok.inj h).symm⟩
    unfold utf8Bytes String.fromUTF8
    rw [List.data_toByteArray, List.toList_toArray]
  · rw [dif_neg hb] at h
    cases h

theorem exists_of_encode {b : Bytes} {w : WString} (h : encodeUtf8 w = .ok b) :
    ∃ s, b = utf8Bytes s ∧ w = utf8ToWide s := by
  unfold encodeUtf8 at h
  cases hs : wideToUtf8 w with
  | error e => rw [hs] at h; cases h
  | ok s =>
    rw [hs] at h
    exact ⟨s, (Except.ok.inj h).symm, (utf8ToWide_of_wideToUtf8 hs).symm⟩

/-- **What was written is read back.** -/
theorem decode_of_encode {b : Bytes} {w : WString} (h : encodeUtf8 w = .ok b) :
    decodeUtf8 b = .ok w := by
  obtain ⟨s, rfl, rfl⟩ := exists_of_encode h
  exact decodeUtf8_utf8Bytes s

/-- **What was read can be written.** -/
theorem wellFormed_of_decode {b : Bytes} {w : WString} (h : decodeUtf8 b = .ok w) :
    wellFormed w = true := by
  obtain ⟨s, -, rfl⟩ := exists_of_decode h
  exact wellFormed_utf8ToWide s

theorem exists_encode {w : WString} (h : wellFormed w = true) : ∃ b, encodeUtf8 w = .ok b := by
  unfold encodeUtf8 wideToUtf8
  rw [if_pos h]
  exact ⟨_, rfl⟩

/-! ## Line feeds -/

theorem toNat_lt_of_char (c : Char) : c.toNat < 0x110000 := by
  have hc : c.toNat < 0xD800 ∨ (0xDFFF < c.toNat ∧ c.toNat < 0x110000) := c.valid
  omega

theorem toNat_eq_ten_iff (c : Char) : c.toNat = 10 ↔ c = '\n' := by
  rw [← Char.toNat_inj]
  rfl

theorem lineFeed_eq_ofNat {n : ℕ} (h : n < 256) : (0x0A : UInt8) = UInt8.ofNat n ↔ n = 10 := by
  rw [← UInt8.toNat_inj, UInt8.toNat_ofNat', Nat.mod_eq_of_lt h]
  exact eq_comm

theorem lineFeed_mem_utf8EncodeChar {c : Char} :
    (0x0A : UInt8) ∈ String.utf8EncodeChar c ↔ c = '\n' := by
  have hlt := toNat_lt_of_char c
  have hval (n : ℕ) (h : n < 256) := lineFeed_eq_ofNat h
  unfold String.utf8EncodeChar
  rw [← toNat_eq_ten_iff]
  simp only [Char.toNat_val]
  -- a byte of a longer encoding is at least 0x80
  split_ifs with h1 h2 h3
  · rw [List.mem_singleton, hval _ (by omega)]
  · simp only [List.mem_cons, List.not_mem_nil, or_false]
    rw [hval _ (by omega), hval _ (by omega)]
    omega
  · simp only [List.mem_cons, List.not_mem_nil, or_false]
    rw [hval _ (by omega), hval _ (by omega), hval _ (by omega)]
    omega
  · simp only [List.mem_cons, List.not_mem_nil, or_false]
    rw [hval _ (by omega), hval _ (by omega), hval _ (by omega), hval _ (by omega)]
    omega

theorem lineFeed_mem_utf16Units {c : Char} : (0x0A : UInt16) ∈ utf16Units c ↔ c = '\n' := by
  have hlt := toNat_lt_of_char c
  have hval (n : ℕ) (h : n < 65536) : (0x0A : UInt16) = n.toUInt16 ↔ n = 10 := by
    rw [← UInt16.toNat_inj, Nat.toUInt16, UInt16.toNat_ofNat', Nat.mod_eq_of_lt h]
    exact eq_comm
  unfold utf16Units
  rw [← toNat_eq_ten_iff]
  split_ifs with h
  · rw [List.mem_singleton, hval _ h]
  · simp only [List.mem_cons, List.not_mem_nil, or_false]
    rw [hval _ (by omega), hval _ (by omega)]
    omega

/-- The bytes of a text hold a line feed if and only if the units do. -/
theorem lineFeed_mem_iff (s : String) :
    (0x0A : UInt8) ∈ utf8Bytes s ↔ (0x0A : UInt16) ∈ utf8ToWide s := by
  rw [utf8Bytes_eq, utf8ToWide, List.mem_flatMap, List.mem_flatMap]
  simp only [lineFeed_mem_utf8EncodeChar, lineFeed_mem_utf16Units]

end SsdCache
