import SsdCache.Proof.Utf
import SsdCache.Spec.ConfigFile

/-!
# The configuration file, saved and read again

* `readKeyValues_lines`: lines of keys and values are read as the keys and values.
* `savable_of_load`: what the loader returns can be saved (`Savable`), given letters of ASCII.
* `load_of_savable`: what can be saved is what the loader returns for it.
* `reload_of_save`: **saving a loaded configuration and loading it again changes nothing**.
-/

namespace SsdCache

open Civil

/-! ## Runs of conversions -/

section Except

variable {ε α β : Type} {f : α → Except ε β}

/-- A sequence that returns does so after its first step. -/
theorem exists_of_bind_ok {x : Except ε α} {b : β} (h : x >>= f = .ok b) :
    ∃ a, x = .ok a ∧ f a = .ok b := by
  cases x with
  | error e => cases h
  | ok a => exact ⟨a, rfl, h⟩

theorem mapM_map_ok {γ : Type} {e : γ → α} {g : γ → β} : ∀ {l : List γ},
    (∀ x ∈ l, f (e x) = .ok (g x)) → (l.map e).mapM f = .ok (l.map g)
  | [], _ => rfl
  | x :: l, h => by
    obtain ⟨hx, hl⟩ := List.forall_mem_cons.1 h
    rw [List.map_cons, List.mapM_cons, hx, mapM_map_ok hl]
    rfl

theorem exists_of_mapM_ok : ∀ {l : List α} {ys : List β}, l.mapM f = .ok ys →
    ∀ y ∈ ys, ∃ x ∈ l, f x = .ok y
  | [], ys, h => by
    obtain rfl := Except.ok.inj h
    exact fun y hy => absurd hy List.not_mem_nil
  | x :: l, ys, h => by
    rw [List.mapM_cons] at h
    obtain ⟨y, hx, h⟩ := exists_of_bind_ok h
    obtain ⟨zs, hl, h⟩ := exists_of_bind_ok h
    obtain rfl := Except.ok.inj h
    refine List.forall_mem_cons.2 ⟨⟨x, List.mem_cons_self, hx⟩, fun z hz => ?_⟩
    obtain ⟨u, hu, hfu⟩ := exists_of_mapM_ok hl z hz
    exact ⟨u, List.mem_cons_of_mem x hu, hfu⟩

end Except

/-! ## Text of ASCII -/

/-- The text as wide characters. -/
def wideText (s : Text) : WString := s.map fun c => c.toNat.toUInt16

theorem toNat_unit_of_ascii {c : Char} (h : c.toNat < 0x80) : c.toNat.toUInt16.toNat = c.toNat := by
  rw [Nat.toUInt16, UInt16.toNat_ofNat', Nat.mod_eq_of_lt (by omega)]

theorem decodeUtf8_ascii {s : Text} (h : ∀ c ∈ s, c.toNat < 0x80) :
    decodeUtf8 (ascii s) = .ok (wideText s) := by
  have hbytes : utf8Bytes (String.ofList s) = ascii s := by
    rw [utf8Bytes_eq, String.toList_ofList]
    induction s with
    | nil => rfl
    | cons c s ih =>
      obtain ⟨hc, hs⟩ := List.forall_mem_cons.1 h
      have hsize : c.utf8Size = 1 := by
        rw [Char.utf8Size_eq_one_iff, UInt32.le_iff_toNat_le]
        exact Nat.le_of_lt_succ hc
      rw [List.flatMap_cons, String.utf8EncodeChar_eq_singleton hsize, ih hs]
      rfl
  have hunits : utf8ToWide (String.ofList s) = wideText s := by
    unfold utf8ToWide wideText
    rw [String.toList_ofList, List.map_eq_flatMap]
    refine List.flatMap_congr fun c hc => ?_
    unfold utf16Units
    rw [if_pos (by have := h c hc; omega)]
  rw [← hbytes, decodeUtf8_utf8Bytes, hunits]

/-- The bytes of a line hold a line feed if and only if its text does. -/
theorem lineFeed_iff_of_decode {b : Bytes} {w : WString} (h : decodeUtf8 b = .ok w) :
    lineFeed ∈ b ↔ (0x0A : UInt16) ∈ w := by
  obtain ⟨s, rfl, rfl⟩ := exists_of_decode h
  exact lineFeed_mem_iff s

/-! ## Values and lines -/

section Values

variable (ctype : CType)

/-- A value as a line of the file gives it: trimmed text on one line. -/
structure IsValue (w : WString) : Prop where
  trimmed : Text.Trimmed ctype.iswspace w
  oneLine : 0x0A ∉ w
  wellFormed : wellFormed w = true

/-- Text of graphic characters of ASCII. -/
def Graphic (s : Text) : Prop := ∀ c ∈ s, 0x21 ≤ c.toNat ∧ c.toNat ≤ 0x7E

instance (s : Text) : Decidable (Graphic s) := List.decidableBAll _ s

/-- A key as the program writes it. -/
def IsKey (key : String) : Prop :=
  key.toList ≠ [] ∧ Graphic key.toList ∧ '=' ∉ key.toList ∧ '#' ∉ key.toList

instance (key : String) : Decidable (IsKey key) := inferInstanceAs (Decidable (_ ∧ _ ∧ _))

/-- The bytes of a value, and its text. -/
structure Spelled (b : Bytes) (w : WString) : Prop where
  decoded : decodeUtf8 b = .ok w
  value : IsValue ctype w

variable {ctype}

theorem cutClosed_wellFormed {p : UInt16 → Bool} (hp : ∀ u, p u = true → ¬ IsSurrogate u) :
    Text.CutClosed p fun w => wellFormed w = true := by
  intro a u b hu h
  rw [wellFormed_append_cons (hp u hu), Bool.and_eq_true] at h
  exact h

theorem not_isSurrogate_of_space {u : UInt16} (h : ctype.iswspace u = true) : ¬ IsSurrogate u := by
  intro hu
  have hnot := ctype.iswspace_surrogate u hu.1 hu.2
  rw [hnot] at h
  cases h

theorem not_isSurrogate_of_delimiter {u : UInt16} (h : isDelimiter u = true) :
    ¬ IsSurrogate u := by
  unfold IsSurrogate
  rcases of_decide_eq_true h with rfl | rfl <;> decide

/-- Trimming a text on one line gives a value. -/
theorem isValue_trim {w : WString} (h : 0x0A ∉ w) (hw : wellFormed w = true) :
    IsValue ctype (trim ctype w) := by
  refine ⟨Text.trimmed_trim _ _, fun hm => h (Text.trim_subset _ _ hm), ?_⟩
  exact (cutClosed_wellFormed fun u => not_isSurrogate_of_space).trim hw

theorem isValue_nil : IsValue ctype [] := ⟨Text.trimmed_nil, List.not_mem_nil, rfl⟩

theorem isSpace_graphic {c : Char} (h : 0x21 ≤ c.toNat) (h' : c.toNat ≤ 0x7E) :
    ctype.iswspace c.toNat.toUInt16 = false := by
  have hc := toNat_unit_of_ascii (show c.toNat < 0x80 by omega)
  apply ctype.iswspace_graphic
  · rw [UInt16.le_iff_toNat_le, hc]
    exact h
  · rw [UInt16.le_iff_toNat_le, hc]
    exact h'

/-- Graphic characters of ASCII are a value. -/
theorem spelled_ascii {s : Text} (h : Graphic s) : Spelled ctype (ascii s) (wideText s) := by
  have hlow : ∀ c ∈ s, c.toNat < 0x80 := by
    intro c hc
    have hc := (h c hc).2
    omega
  have hdec := decodeUtf8_ascii hlow
  have hspace : ∀ u ∈ wideText s, ctype.iswspace u = false := by
    intro u hu
    obtain ⟨c, hc, rfl⟩ := List.mem_map.1 hu
    exact isSpace_graphic (h c hc).1 (h c hc).2
  refine ⟨hdec, ⟨fun u hu => hspace u (List.mem_of_mem_head? hu),
    fun u hu => hspace u (List.mem_of_mem_getLast? hu)⟩, fun hm => ?_, wellFormed_of_decode hdec⟩
  have hlf := hspace 0x0A hm
  rw [ctype.iswspace_lineFeed] at hlf
  cases hlf

/-- A line has no line feed. -/
theorem lineFeed_not_mem_line {bytes line : Bytes} (h : line ∈ bytes.splitOn lineFeed) :
    lineFeed ∉ line := by
  rw [List.splitOn_eq_splitOnP] at h
  have hcut : Text.CutClosed (· == lineFeed) fun _ => True := fun _ _ _ _ _ => ⟨trivial, trivial⟩
  intro hm
  have hne := (hcut.splitOnP bytes trivial line h).2 lineFeed hm
  simp at hne

theorem isValue_of_readKeyValues {file : Option Bytes} {values : List (WString × WString)}
    (h : readKeyValues ctype file = .ok values) : ∀ kv ∈ values, IsValue ctype kv.2 := by
  cases file with
  | none =>
    obtain rfl := Except.ok.inj h
    exact fun kv hkv => absurd hkv List.not_mem_nil
  | some bytes =>
    intro kv hkv
    obtain ⟨⟨k, v⟩, hpair, hread⟩ := exists_of_mapM_ok h kv hkv
    obtain ⟨line, hline, hcut⟩ := List.mem_filterMap.1 hpair
    unfold keyValue at hcut
    split_ifs at hcut with hskip
    have hv : lineFeed ∉ v := by
      intro hm
      rw [Text.splitFirst_eq_some hcut] at hline
      exact lineFeed_not_mem_line hline (List.mem_append_right k (List.mem_cons_of_mem _ hm))
    obtain ⟨wk, -, hread⟩ := exists_of_bind_ok hread
    obtain ⟨w, hw, hread⟩ := exists_of_bind_ok hread
    obtain rfl := Except.ok.inj hread
    exact isValue_trim (fun hm => hv ((lineFeed_iff_of_decode hw).2 hm)) (wellFormed_of_decode hw)

/-! ## Writing lines and reading them -/

/-- A line the program writes: its key, the bytes of its value, and their text. -/
structure Line where
  key : String
  bytes : Bytes
  text : WString

/-- Key and value as the loader has them. -/
def Line.read (line : Line) : WString × WString := (wide line.key, line.text)

def Line.write (line : Line) : Bytes := configLine line.key line.bytes

/-- The loader reads the line as its key and its text. -/
structure Line.Legible (ctype : CType) (line : Line) : Prop where
  key : IsKey line.key
  value : Spelled ctype line.bytes line.text

theorem Spelled.legible {key : String} {b : Bytes} {w : WString} (h : Spelled ctype b w)
    (hkey : IsKey key) : Line.Legible ctype ⟨key, b, w⟩ :=
  ⟨hkey, h⟩

/-- The line without its end. -/
def Line.body (line : Line) : Bytes := ascii line.key.toList ++ equals :: line.bytes

theorem not_mem_ascii {s : Text} {d : Char} (hd : d.toNat < 0x80) (h : Graphic s)
    (hs : d ∉ s) : d.toNat.toUInt8 ∉ ascii s := by
  intro hm
  obtain ⟨c, hc, heq⟩ := List.mem_map.1 hm
  have hlt := (h c hc).2
  have hnat := congrArg UInt8.toNat heq
  simp only [Nat.toUInt8, UInt8.toNat_ofNat'] at hnat
  rw [Nat.mod_eq_of_lt (by omega), Nat.mod_eq_of_lt (by omega)] at hnat
  exact hs (Char.toNat_inj.1 hnat ▸ hc)

variable {line : Line}

theorem Line.Legible.lineFeed_not_mem (h : line.Legible ctype) : lineFeed ∉ line.body := by
  have hvalue := mt (lineFeed_iff_of_decode h.value.decoded).1 h.value.value.oneLine
  have hkey : ('\n').toNat.toUInt8 ∉ ascii line.key.toList := by
    obtain ⟨-, hgraphic, -, -⟩ := h.key
    exact not_mem_ascii (by decide) hgraphic fun hm => absurd (hgraphic _ hm).1 (by decide)
  unfold body
  rw [List.mem_append, List.mem_cons]
  rintro (hm | hm | hm)
  · exact hkey hm
  · exact absurd hm (by decide)
  · exact hvalue hm

theorem Line.Legible.keyValue_body (h : line.Legible ctype) :
    keyValue line.body = some (ascii line.key.toList, line.bytes) := by
  have hkey (d : Char) (hd : d = '=' ∨ d = '#') : d.toNat.toUInt8 ∉ ascii line.key.toList := by
    obtain ⟨-, hgraphic, heq, hhash⟩ := h.key
    rcases hd with rfl | rfl
    · exact not_mem_ascii (by decide) hgraphic heq
    · exact not_mem_ascii (by decide) hgraphic hhash
  have hhead : ¬ (line.body = [] ∨ line.body.head? = some hash) := by
    unfold body
    cases hs : line.key.toList with
    | nil => exact absurd hs h.key.1
    | cons c s =>
      rintro (hnil | hhash)
      · cases hnil
      · have hne := hkey '#' (.inr rfl)
        have hc : c.toNat.toUInt8 = hash := Option.some.inj hhash
        rw [hs, show ('#').toNat.toUInt8 = hash from rfl, ← hc] at hne
        exact hne List.mem_cons_self
  unfold keyValue
  rw [if_neg hhead]
  exact Text.splitFirst_append_cons (hkey '=' (.inl rfl)) line.bytes

/-- **Lines that were written are read** as their keys and values. -/
theorem readKeyValues_lines {lines : List Line} (h : ∀ line ∈ lines, line.Legible ctype) :
    readKeyValues ctype (some (lines.flatMap Line.write)) = .ok (lines.map Line.read) := by
  have hfile : lines.flatMap Line.write = (lines.map Line.body).flatMap (· ++ [lineFeed]) := by
    rw [List.flatMap_map]
    rfl
  have hcut : (lines.flatMap Line.write).splitOn lineFeed = lines.map Line.body ++ [[]] := by
    rw [hfile, Text.splitOn_lines]
    intro l hl
    obtain ⟨line, hline, rfl⟩ := List.mem_map.1 hl
    exact (h line hline).lineFeed_not_mem
  have hpairs : ((lines.flatMap Line.write).splitOn lineFeed).filterMap keyValue =
      lines.map fun line => (ascii line.key.toList, line.bytes) := by
    rw [hcut, List.filterMap_append, List.filterMap_map]
    have hline := List.filterMap_congr (g := fun line => some (ascii line.key.toList, line.bytes))
      fun line hline => (h line hline).keyValue_body
    rw [show keyValue ∘ Line.body = fun line => keyValue line.body from rfl, hline,
      List.filterMap_eq_map']
    exact List.append_nil _
  have hread : ∀ line ∈ lines,
      readPair ctype (ascii line.key.toList, line.bytes) = .ok line.read := by
    intro line hline
    obtain ⟨⟨-, hgraphic, -⟩, hvalue⟩ := h line hline
    have hkey : Spelled ctype (ascii line.key.toList) (wide line.key) :=
      spelled_ascii hgraphic
    unfold readPair
    rw [hkey.decoded, hvalue.decoded]
    refine congrArg Except.ok (Prod.ext ?_ ?_)
    · exact Text.trim_of_trimmed hkey.value.trimmed
    · exact Text.trim_of_trimmed hvalue.value.trimmed
  simp only [readKeyValues, hpairs]
  exact mapM_map_ok hread

/-! ## Numbers -/

theorem unpadded_head (n : ℕ) : ∃ c s, unpadded (n + 1) n = c :: s ∧ c.isDigit = true := by
  obtain ⟨w, hw, -, heq⟩ := unpadded_eq_fixed (Nat.lt_succ_self n)
  have hlen := length_fixed w n
  cases hs : unpadded (n + 1) n with
  | nil => rw [← heq, hs] at hlen; simp at hlen; omega
  | cons c s =>
    have hc : c ∈ fixed w n := by rw [← heq, hs]; exact List.mem_cons_self
    exact ⟨c, s, rfl, isDigit_of_mem_fixed hc⟩

/-- The digits of a number are read as the number. -/
theorem wcsDigits_unpadded (n : ℕ) : wcsDigits (unpadded (n + 1) n) = some n := by
  obtain ⟨w, -, hlt, heq⟩ := unpadded_eq_fixed (Nat.lt_succ_self n)
  have hscan : scanDigits 0 (fixed w n ++ []) = (0 * 10 ^ w + n, []) :=
    scan_fixed (fun c (hc : c ∈ ([] : Text).head?) => absurd hc (Option.not_mem_none c)) w hlt
  obtain ⟨c, s, hcons, hc⟩ := unpadded_head n
  rw [List.append_nil, ← heq, hcons, Nat.zero_mul, Nat.zero_add] at hscan
  rw [hcons]
  simp only [wcsDigits, hc, if_true, hscan]

theorem printInt_zero (n : ℤ) :
    printInt 0 n = (if n < 0 then ['-'] else []) ++ unpadded (n.natAbs + 1) n.natAbs := by
  unfold printInt padded
  split_ifs <;> simp

theorem graphic_printInt (n : ℤ) : Graphic (printInt 0 n) := by
  intro c hc
  rw [printInt_zero, List.mem_append] at hc
  rcases hc with hc | hc
  · split_ifs at hc
    · obtain rfl := List.mem_singleton.1 hc
      decide
    · exact absurd hc List.not_mem_nil
  · obtain ⟨w, -, -, heq⟩ := unpadded_eq_fixed (Nat.lt_succ_self n.natAbs)
    rw [heq] at hc
    have hdigit := isDigit_of_mem_fixed hc
    simp only [Char.isDigit, Bool.and_eq_true, decide_eq_true_eq, UInt32.le_iff_toNat_le] at hdigit
    have h1 : 48 ≤ c.toNat := hdigit.1
    have h2 : c.toNat ≤ 57 := hdigit.2
    omega

/-- **A number that was written is read.** -/
theorem wcsInteger_printInt (n : ℤ) : wcsInteger ctype (wideText (printInt 0 n)) = some n := by
  have hspelled : Spelled ctype (ascii (printInt 0 n)) (wideText (printInt 0 n)) :=
    spelled_ascii (graphic_printInt n)
  have hvalue := hspelled.value.trimmed
  have hdrop : (wideText (printInt 0 n)).dropWhile ctype.iswspace = wideText (printInt 0 n) := by
    cases hs : wideText (printInt 0 n) with
    | nil => rfl
    | cons u s =>
      rw [hs] at hvalue
      rw [List.dropWhile_cons_of_neg (by simp [hvalue.head u rfl])]
  have hchars : ((wideText (printInt 0 n)).map fun u => Char.ofNat u.toNat) = printInt 0 n := by
    unfold wideText
    rw [List.map_map]
    refine (List.map_congr_left fun c hc => ?_).trans (List.map_id _)
    have hlt := (graphic_printInt n c hc).2
    rw [Function.comp_apply, toNat_unit_of_ascii (by omega), Char.ofNat_toNat]
    rfl
  have hdigits := wcsDigits_unpadded n.natAbs
  unfold wcsInteger
  rw [hdrop, hchars, printInt_zero]
  split_ifs with hn
  · simp only [List.singleton_append, hdigits, Option.map_some]
    congr 1
    omega
  · obtain ⟨c, s, hcons, hc⟩ := unpadded_head n.natAbs
    rw [List.nil_append, hcons]
    rw [hcons] at hdigits
    split
    · rename_i heq
      obtain rfl := (List.cons.inj heq).1
      exact absurd hc (by decide)
    · rename_i heq
      obtain rfl := (List.cons.inj heq).1
      exact absurd hc (by decide)
    · rw [hdigits, Option.map_some]
      congr 1
      omega

theorem stoll_printInt {n : ℤ} (h : -9223372036854775808 ≤ n ∧ n ≤ 9223372036854775807) :
    stoll ctype (wideText (printInt 0 n)) = .ok n := by
  simp only [stoll, wcsInteger_printInt, if_pos h]

theorem stoull_printInt (n : UInt64) : stoull ctype (wideText (printInt 0 n.toNat)) = .ok n := by
  have hlt := n.toNat_lt
  simp only [stoull, wcsInteger_printInt]
  rw [if_pos (by simp; omega), UInt64.ofInt, Int.emod_eq_of_lt (by omega) (by omega),
    Int.toNat_natCast]
  exact congrArg Except.ok UInt64.ofNat_toNat

/-! ## Settings -/

theorem readMinFree_printInt {n fallback : UInt64} (h : n / mebibyte * mebibyte = n) :
    readMinFree ctype (some (wideText (printInt 0 (n / mebibyte).toNat))) fallback = .ok n := by
  have hread : stoull ctype (wideText (printInt 0 (n / mebibyte).toNat)) = .ok (n / mebibyte) :=
    stoull_printInt (n / mebibyte)
  cases hs : wideText (printInt 0 (n / mebibyte).toNat) with
  | nil => rw [hs] at hread; cases hread
  | cons u s =>
    rw [hs] at hread
    simp only [readMinFree, hread]
    exact congrArg Except.ok h

/-- A product of mebibytes, also one that wraps, is a number of mebibytes. -/
theorem mebibytes_mul (n : UInt64) : n * mebibyte / mebibyte * mebibyte = n * mebibyte := by
  rw [← UInt64.toNat_inj, UInt64.toNat_mul, UInt64.toNat_div, UInt64.toNat_mul,
    show mebibyte.toNat = 1048576 from rfl]
  omega

theorem appModeFromWstring_appModeToWstring (mode : AppMode) :
    appModeFromWstring ctype (appModeToWstring mode) = .ok mode := by
  have hlower : (appModeToWstring mode).map ctype.towlower = appModeToWstring mode := by
    refine (List.map_congr_left fun u hu => ?_).trans (List.map_id _)
    have hletters : (appModeToWstring mode).all (fun u => 0x61 ≤ u ∧ u ≤ 0x7A) = true := by
      cases mode <;> decide
    obtain ⟨hlow, hhigh⟩ := of_decide_eq_true (List.all_eq_true.1 hletters u hu)
    exact ctype.towlower_lower u hlow hhigh
  unfold appModeFromWstring
  rw [hlower]
  cases mode <;> rfl

theorem readMode_appModeToWstring (mode : AppMode) :
    readMode ctype (some (appModeToWstring mode)) = .ok (some mode) := by
  have hmode : appModeFromWstring ctype (appModeToWstring mode) = .ok mode :=
    appModeFromWstring_appModeToWstring mode
  cases hs : appModeToWstring mode with
  | nil => cases mode <;> cases hs
  | cons u s =>
    rw [hs] at hmode
    simp only [readMode, hmode]
    rfl

variable (ctype) in
/-- A pattern as the loader splits it off. -/
structure IsPattern (w : WString) : Prop where
  ne_nil : w ≠ []
  value : IsValue ctype w
  free : ∀ u ∈ w, isDelimiter u = false

theorem joinFrom_eq {patterns : List WString} (h : ∀ w ∈ patterns, w ≠ []) {result : WString}
    (hr : result ≠ []) : joinFrom result patterns = Text.joined semicolon (result :: patterns) := by
  induction patterns generalizing result with
  | nil => simp [joinFrom, Text.joined]
  | cons w ws ih =>
    obtain ⟨hw, hws⟩ := List.forall_mem_cons.1 h
    rw [joinFrom, if_neg hr, ih hws (by simp [hr])]
    cases ws with
    | nil => simp [Text.joined]
    | cons v ws => simp [Text.joined_cons_cons]

theorem joinPatterns_eq {patterns : List WString} (h : ∀ w ∈ patterns, w ≠ []) :
    joinPatterns patterns = Text.joined semicolon patterns := by
  unfold joinPatterns
  cases patterns with
  | nil => rfl
  | cons w ws =>
    obtain ⟨hw, hws⟩ := List.forall_mem_cons.1 h
    rw [joinFrom, if_pos rfl, List.nil_append, joinFrom_eq hws hw]

theorem splitPatterns_joinPatterns {patterns : List WString}
    (h : ∀ w ∈ patterns, IsPattern ctype w) :
    splitPatterns ctype (joinPatterns patterns) = patterns := by
  rw [joinPatterns_eq fun w hw => (h w hw).ne_nil]
  unfold splitPatterns
  by_cases hnil : patterns = []
  · subst hnil
    rfl
  · have htrim : patterns.map (trim ctype) = patterns :=
      (List.map_congr_left fun w hw => Text.trim_of_trimmed (h w hw).value.trimmed).trans
        (List.map_id _)
    rw [Text.splitOnP_joined (by decide) hnil fun w hw => (h w hw).free, htrim,
      List.filter_eq_self]
    exact fun w hw => decide_eq_true (h w hw).ne_nil

theorem isPattern_of_mem_splitPatterns {value w : WString} (hvalue : IsValue ctype value)
    (h : w ∈ splitPatterns ctype value) : IsPattern ctype w := by
  obtain ⟨hmem, hne⟩ := List.mem_filter.1 h
  obtain ⟨piece, hpiece, rfl⟩ := List.mem_map.1 hmem
  have hcut := (Text.cutClosed_not_mem (p := isDelimiter) 0x0A).and
    (cutClosed_wellFormed fun u => not_isSurrogate_of_delimiter)
  obtain ⟨⟨hline, hwell⟩, hfree⟩ :=
    hcut.splitOnP value ⟨hvalue.oneLine, hvalue.wellFormed⟩ piece hpiece
  exact ⟨of_decide_eq_true hne, isValue_trim hline hwell,
    fun u hu => hfree u (Text.trim_subset _ _ hu)⟩

theorem isValue_joinPatterns {patterns : List WString} (h : ∀ w ∈ patterns, IsPattern ctype w) :
    IsValue ctype (joinPatterns patterns) := by
  rw [joinPatterns_eq fun w hw => (h w hw).ne_nil]
  refine ⟨Text.trimmed_joined _ fun w hw => ⟨(h w hw).ne_nil, (h w hw).value.trimmed⟩, ?_, ?_⟩
  · intro hm
    rcases Text.mem_joined hm with heq | ⟨w, hw, hm⟩
    · exact absurd heq (by decide)
    · exact (h w hw).value.oneLine hm
  · induction patterns with
    | nil => rfl
    | cons w ws ih =>
      obtain ⟨hw, hws⟩ := List.forall_mem_cons.1 h
      cases ws with
      | nil => simpa [Text.joined] using hw.value.wellFormed
      | cons v ws =>
        have hsemi : ¬ IsSurrogate semicolon := not_isSurrogate_of_delimiter (by decide)
        rw [Text.joined_cons_cons, wellFormed_append_cons hsemi, hw.value.wellFormed, ih hws]
        rfl

/-! ## What can be saved -/

variable (ctype) in
/-- A drive letter as the loader gives it, one of ASCII. -/
structure IsLetter (u : Letter) : Prop where
  ascii : u ≤ 0x7F
  graphic : ctype.iswspace u = false
  upper : ctype.towupper u = u

variable (ctype) in
/-- **What the loader returns**, and what can be saved and loaded again. -/
structure Savable (config : AppConfig) : Prop where
  sourceUnc : IsValue ctype config.sourceUnc
  sourcePresentationLetter : IsLetter ctype config.sourcePresentationLetter
  cacheLetter : IsLetter ctype config.cacheLetter
  sqlitePath : IsValue ctype config.sqlitePath
  copyDelay : -9223372036854775808 ≤ config.copyDelay ∧ config.copyDelay ≤ 9223372036854775807
  minFreeBytes : config.minFreeBytes / mebibyte * mebibyte = config.minFreeBytes
  ignoredProcessPatterns : ∀ w ∈ config.ignoredProcessPatterns, IsPattern ctype w
  ignoredPathPatterns : ∀ w ∈ config.ignoredPathPatterns, IsPattern ctype w

theorem isLetter_readLetter {value : Option WString} {fallback : Letter}
    (hvalue : ∀ w ∈ value, IsValue ctype w) (hfallback : 0x41 ≤ fallback ∧ fallback ≤ 0x5A)
    (hascii : readLetter ctype value fallback ≤ 0x7F) :
    IsLetter ctype (readLetter ctype value fallback) := by
  have hdefault : IsLetter ctype fallback := by
    refine ⟨?_, ctype.iswspace_graphic _ ?_ ?_, ctype.towupper_upper _ hfallback.1 hfallback.2⟩
    all_goals grind
  cases value with
  | none => exact hdefault
  | some w =>
    cases w with
    | nil => exact hdefault
    | cons u w =>
      have hu := (hvalue _ rfl).trimmed.head u rfl
      exact ⟨hascii, (ctype.iswspace_towupper u).trans hu, ctype.towupper_idem u⟩

theorem isPattern_readPatterns {value : Option WString} {fallback : List WString}
    (hvalue : ∀ w ∈ value, IsValue ctype w) (hfallback : ∀ w ∈ fallback, IsPattern ctype w) :
    ∀ w ∈ readPatterns ctype value fallback, IsPattern ctype w := by
  cases value with
  | none => exact hfallback
  | some v => exact fun w hw => isPattern_of_mem_splitPatterns (hvalue v rfl) hw

/-- A graphic text of ASCII without delimiters is a pattern. -/
theorem isPattern_wide {s : String} (hne : wide s ≠ []) (h : Graphic s.toList)
    (hfree : (wide s).any isDelimiter = false) : IsPattern ctype (wide s) := by
  refine ⟨hne, (spelled_ascii h).value, fun u hu => ?_⟩
  rw [List.any_eq_false] at hfree
  exact Bool.eq_false_iff.2 (hfree u hu)

theorem isPattern_default :
    (∀ w ∈ ({} : AppConfig).ignoredProcessPatterns, IsPattern ctype w) ∧
      ∀ w ∈ ({} : AppConfig).ignoredPathPatterns, IsPattern ctype w := by
  constructor
  · simp only [List.forall_mem_cons]
    exact ⟨isPattern_wide (by decide) (by decide) (by decide), fun _ h => nomatch h⟩
  · simp only [List.forall_mem_cons]
    exact ⟨isPattern_wide (by decide) (by decide) (by decide),
      isPattern_wide (by decide) (by decide) (by decide),
      isPattern_wide (by decide) (by decide) (by decide),
      isPattern_wide (by decide) (by decide) (by decide), fun _ h => nomatch h⟩

theorem readCopyDelay_range {value : Option WString} {n : ℤ}
    (h : readCopyDelay ctype value ({} : AppConfig).copyDelay = .ok n) :
    -9223372036854775808 ≤ n ∧ n ≤ 9223372036854775807 := by
  cases value with
  | none =>
    obtain rfl := Except.ok.inj h
    decide
  | some w =>
    simp only [readCopyDelay, stoll] at h
    split at h
    · cases h
    · split_ifs at h with hrange
      obtain rfl := Except.ok.inj h
      exact hrange

theorem readMinFree_mebibytes {value : Option WString} {n : UInt64}
    (h : readMinFree ctype value ({} : AppConfig).minFreeBytes = .ok n) :
    n / mebibyte * mebibyte = n := by
  unfold readMinFree at h
  split at h
  · obtain rfl := Except.ok.inj h
    decide
  · obtain rfl := Except.ok.inj h
    decide
  · rename_i w _
    cases hw : stoull ctype w with
    | error e => rw [hw] at h; cases h
    | ok m =>
      rw [hw] at h
      obtain rfl := Except.ok.inj h
      exact mebibytes_mul m

theorem isValue_lookup {file : Option Bytes} {values : List (WString × WString)}
    (h : readKeyValues ctype file = .ok values) (key : String) :
    ∀ w ∈ values.lookup (wide key), IsValue ctype w := by
  intro w hw
  obtain ⟨before, after, heq, -⟩ := List.lookup_eq_some_iff.1 hw
  refine isValue_of_readKeyValues h (wide key, w) ?_
  rw [heq]
  exact List.mem_append_right before List.mem_cons_self

theorem isValue_getD_lookup {file : Option Bytes} {values : List (WString × WString)}
    (h : readKeyValues ctype file = .ok values) (key : String) :
    IsValue ctype ((values.lookup (wide key)).getD []) := by
  have hkey := isValue_lookup h key
  cases hs : values.lookup (wide key) with
  | none => exact isValue_nil
  | some w => exact hkey w hs

/-- **What is loaded can be saved**, when its letters are of ASCII. -/
theorem savable_of_load {file : Option Bytes} {config : AppConfig}
    (h : loadConfigFile ctype file = .ok config)
    (hpresentation : config.sourcePresentationLetter ≤ 0x7F) (hcache : config.cacheLetter ≤ 0x7F) :
    Savable ctype config := by
  obtain ⟨values, hread, h⟩ := exists_of_bind_ok h
  obtain ⟨mode, -, h⟩ := exists_of_bind_ok h
  obtain ⟨delay, hdelay, h⟩ := exists_of_bind_ok h
  obtain ⟨free, hfree, h⟩ := exists_of_bind_ok h
  obtain rfl := Except.ok.inj h
  have hvalue := isValue_lookup hread
  exact {
    sourceUnc := isValue_getD_lookup hread _
    sourcePresentationLetter := isLetter_readLetter (hvalue _) (by decide) hpresentation
    cacheLetter := isLetter_readLetter (hvalue _) (by decide) hcache
    sqlitePath := isValue_getD_lookup hread _
    copyDelay := readCopyDelay_range hdelay
    minFreeBytes := readMinFree_mebibytes hfree
    ignoredProcessPatterns := isPattern_readPatterns (hvalue _) isPattern_default.1
    ignoredPathPatterns := isPattern_readPatterns (hvalue _) isPattern_default.2 }

/-! ## Saving and loading -/

/-- What the lines of a saved configuration are read as. -/
def savedValues (config : AppConfig) : List (WString × WString) :=
  [(wide "source_unc", config.sourceUnc),
    (wide "source_presentation_letter", [config.sourcePresentationLetter]),
    (wide "cache_letter", [config.cacheLetter]),
    (wide "sqlite_path", config.sqlitePath)] ++
  (config.mode.toList.map fun mode => (wide "mode", appModeToWstring mode)) ++
  [(wide "copy_delay_seconds", wideText (printInt 0 config.copyDelay)),
    (wide "compare_hash_before_overwrite",
      wideText (if config.compareHashBeforeOverwrite then ['1'] else ['0'])),
    (wide "min_free_space_mb", wideText (printInt 0 (config.minFreeBytes / mebibyte).toNat)),
    (wide "ignored_process_patterns", joinPatterns config.ignoredProcessPatterns),
    (wide "ignored_path_patterns", joinPatterns config.ignoredPathPatterns)]

/-- What was written of a configuration gives it back. -/
theorem configOf_savedValues {config : AppConfig} (h : Savable ctype config) :
    configOf ctype (savedValues config) = .ok config := by
  obtain ⟨unc, presentation, cache, sqlite, mode, delay, compare, free, processes, paths⟩ := config
  set values := savedValues
    ⟨unc, presentation, cache, sqlite, mode, delay, compare, free, processes, paths⟩ with hvalues
  have hmode : readMode ctype (values.lookup (wide "mode")) = .ok mode := by
    cases mode with
    | none => rfl
    | some mode => exact readMode_appModeToWstring mode
  have hdelay (d : ℤ) :
      readCopyDelay ctype (values.lookup (wide "copy_delay_seconds")) d = .ok delay := by
    cases mode <;> exact stoll_printInt h.copyDelay
  have hfree (d : UInt64) :
      readMinFree ctype (values.lookup (wide "min_free_space_mb")) d = .ok free := by
    cases mode <;> exact readMinFree_printInt h.minFreeBytes
  have hcompare : values.lookup (wide "compare_hash_before_overwrite") =
      some (wideText (if compare then ['1'] else ['0'])) := by
    cases mode <;> rfl
  have hprocesses (d : List WString) :
      readPatterns ctype (values.lookup (wide "ignored_process_patterns")) d = processes := by
    cases mode <;> exact splitPatterns_joinPatterns h.ignoredProcessPatterns
  have hpaths (d : List WString) :
      readPatterns ctype (values.lookup (wide "ignored_path_patterns")) d = paths := by
    cases mode <;> exact splitPatterns_joinPatterns h.ignoredPathPatterns
  have hletters : readLetter ctype (values.lookup (wide "source_presentation_letter")) 0x4E =
      presentation ∧ readLetter ctype (values.lookup (wide "cache_letter")) 0x4B = cache :=
    ⟨h.sourcePresentationLetter.upper, h.cacheLetter.upper⟩
  have hpaths' : (values.lookup (wide "source_unc")).getD [] = unc ∧
      (values.lookup (wide "sqlite_path")).getD [] = sqlite := ⟨rfl, rfl⟩
  clear_value values
  simp only [configOf, hmode, hdelay, hfree, hcompare, hprocesses, hpaths, hletters, hpaths']
  cases compare <;> rfl

theorem IsValue.exists_encode {w : WString} (h : IsValue ctype w) :
    ∃ b, encodeUtf8 w = .ok b ∧ Spelled ctype b w := by
  obtain ⟨b, hb⟩ := SsdCache.exists_encode h.wellFormed
  exact ⟨b, hb, decode_of_encode hb, h⟩

theorem IsLetter.exists_narrow {u : Letter} (h : IsLetter ctype u) :
    ∃ b, narrowAscii [u] = .ok b ∧ Spelled ctype b [u] := by
  have hlt : u.toNat < 0x80 := Nat.lt_succ_of_le (UInt16.le_iff_toNat_le.1 h.ascii)
  have hchar : (Char.ofNat u.toNat).toNat = u.toNat :=
    toNat_ofNat_of_valid (.inl (by omega))
  have hdec := decodeUtf8_ascii (s := [Char.ofNat u.toNat]) fun c hc => by
    rw [List.mem_singleton.1 hc, hchar]
    exact hlt
  have htext : wideText [Char.ofNat u.toNat] = [u] := by
    unfold wideText
    rw [List.map_singleton, hchar, toUInt16_eq rfl]
  rw [htext] at hdec
  refine ⟨SsdCache.ascii [Char.ofNat u.toNat], ?_, hdec,
    Text.trimmed_singleton h.graphic, fun hm => ?_, wellFormed_of_decode hdec⟩
  · unfold narrowAscii SsdCache.ascii
    rw [if_neg (by simpa using h.ascii), List.map_singleton, List.map_singleton, hchar]
    rfl
  · have hspace := h.graphic
    rw [← List.mem_singleton.1 hm, ctype.iswspace_lineFeed] at hspace
    cases hspace

theorem exists_encode_mode (mode : AppMode) :
    ∃ b, encodeUtf8 (appModeToWstring mode) = .ok b ∧
      Spelled ctype b (appModeToWstring mode) := by
  apply IsValue.exists_encode
  cases mode
  · exact (spelled_ascii (s := "disabled".toList) (by decide)).value
  · exact (spelled_ascii (s := "monitor".toList) (by decide)).value
  · exact (spelled_ascii (s := "serve".toList) (by decide)).value

/-- The line of the mode, if there is one. -/
theorem exists_modeLines (ctype : CType) (mode : Option AppMode) :
    ∃ (b : Option Bytes) (lines : List Line),
      (mode.mapM fun mode => encodeUtf8 (appModeToWstring mode)) = .ok b ∧
      lines.flatMap Line.write = (b.map (configLine "mode")).getD [] ∧
      (∀ line ∈ lines, line.Legible ctype) ∧
      lines.map Line.read = mode.toList.map fun mode => (wide "mode", appModeToWstring mode) := by
  cases mode with
  | none => exact ⟨none, [], rfl, rfl, fun line h => absurd h List.not_mem_nil, rfl⟩
  | some mode =>
    obtain ⟨b, hb, hspelled⟩ : ∃ b, encodeUtf8 (appModeToWstring mode) = .ok b ∧
        Spelled ctype b (appModeToWstring mode) := exists_encode_mode mode
    refine ⟨some b, [⟨"mode", b, appModeToWstring mode⟩], ?_, ?_, ?_, rfl⟩
    · rw [Option.mapM_some, hb]
      rfl
    · simp [Line.write]
    · intro line hline
      rw [List.mem_singleton.1 hline]
      exact hspelled.legible (by decide)

/-- A line of ASCII. -/
def asciiLine (key : String) (s : Text) : Line := ⟨key, ascii s, wideText s⟩

theorem legible_asciiLine {key : String} {s : Text} (hkey : IsKey key)
    (h : Graphic s) : (asciiLine key s).Legible ctype :=
  (spelled_ascii h).legible hkey

/-- A saved configuration is lines that are read as its values. -/
theorem exists_savedLines {config : AppConfig} (h : Savable ctype config) :
    ∃ lines : List Line, saveConfigFile config = .ok (lines.flatMap Line.write) ∧
      (∀ line ∈ lines, line.Legible ctype) ∧ lines.map Line.read = savedValues config := by
  obtain ⟨unc, hunc, hunc'⟩ := h.sourceUnc.exists_encode
  obtain ⟨presentation, hpresentation, hpresentation'⟩ := h.sourcePresentationLetter.exists_narrow
  obtain ⟨cache, hcache, hcache'⟩ := h.cacheLetter.exists_narrow
  obtain ⟨sqlite, hsqlite, hsqlite'⟩ := h.sqlitePath.exists_encode
  obtain ⟨mode, modeLines, hmode, hwrite, hlegible, hread⟩ := exists_modeLines ctype config.mode
  obtain ⟨processes, hprocesses, hprocesses'⟩ :=
    (isValue_joinPatterns h.ignoredProcessPatterns).exists_encode
  obtain ⟨paths, hpaths, hpaths'⟩ := (isValue_joinPatterns h.ignoredPathPatterns).exists_encode
  refine ⟨[⟨"source_unc", unc, config.sourceUnc⟩,
      ⟨"source_presentation_letter", presentation, [config.sourcePresentationLetter]⟩,
      ⟨"cache_letter", cache, [config.cacheLetter]⟩,
      ⟨"sqlite_path", sqlite, config.sqlitePath⟩] ++ modeLines ++
    [asciiLine "copy_delay_seconds" (printInt 0 config.copyDelay),
      asciiLine "compare_hash_before_overwrite"
        (if config.compareHashBeforeOverwrite then ['1'] else ['0']),
      asciiLine "min_free_space_mb" (printInt 0 (config.minFreeBytes / mebibyte).toNat),
      ⟨"ignored_process_patterns", processes, joinPatterns config.ignoredProcessPatterns⟩,
      ⟨"ignored_path_patterns", paths, joinPatterns config.ignoredPathPatterns⟩], ?_, ?_, ?_⟩
  · simp only [saveConfigFile, hunc, hpresentation, hcache, hsqlite, hmode, hprocesses, hpaths]
    rw [List.flatMap_append, List.flatMap_append, hwrite]
    refine congrArg Except.ok ?_
    simp only [List.flatMap_cons, List.flatMap_nil, Line.write, asciiLine, List.append_assoc,
      List.append_nil]
  · simp only [List.forall_mem_append, List.forall_mem_cons]
    refine ⟨⟨⟨hunc'.legible (by decide), hpresentation'.legible (by decide),
      hcache'.legible (by decide), hsqlite'.legible (by decide), fun _ h => nomatch h⟩, hlegible⟩,
      ?_, ?_, ?_, hprocesses'.legible (by decide), hpaths'.legible (by decide),
      fun _ h => nomatch h⟩
    · exact legible_asciiLine (by decide) (graphic_printInt config.copyDelay)
    · refine legible_asciiLine (by decide) ?_
      cases config.compareHashBeforeOverwrite <;> decide
    · exact legible_asciiLine (by decide) (graphic_printInt _)
  · rw [List.map_append, List.map_append, hread]
    rfl

/-- A file of lines is loaded as what they are read as. -/
theorem load_lines {lines : List Line} (h : ∀ line ∈ lines, line.Legible ctype) :
    loadConfigFile ctype (some (lines.flatMap Line.write)) =
      configOf ctype (lines.map Line.read) := by
  unfold loadConfigFile
  rw [readKeyValues_lines h]
  rfl

/-- **What can be saved is loaded again.** -/
theorem load_of_savable {config : AppConfig} (h : Savable ctype config) :
    ∃ bytes, saveConfigFile config = .ok bytes ∧
      loadConfigFile ctype (some bytes) = .ok config := by
  obtain ⟨lines, hsave, hlegible, hread⟩ := exists_savedLines h
  refine ⟨_, hsave, ?_⟩
  rw [load_lines hlegible, hread]
  exact configOf_savedValues h

/-- **Saving a loaded configuration and loading it again changes nothing**, also with another
mode, and with a path of the index where the file gave none. -/
theorem reload_of_save {file : Option Bytes} {config : AppConfig}
    (hload : loadConfigFile ctype file = .ok config)
    (hpresentation : config.sourcePresentationLetter ≤ 0x7F) (hcache : config.cacheLetter ≤ 0x7F)
    (mode : Option AppMode) {path : WString}
    (hpath : path = config.sqlitePath ∨
      (config.sqlitePath = [] ∧ path ≠ [] ∧ IsValue ctype path)) :
    ∃ bytes, saveConfigFile { config with mode := mode, sqlitePath := path } = .ok bytes ∧
      loadConfigFile ctype (some bytes) =
        .ok { config with mode := mode, sqlitePath := path } := by
  have hsavable := savable_of_load hload hpresentation hcache
  have hvalue : IsValue ctype path := by
    rcases hpath with rfl | ⟨-, -, hpath⟩
    · exact hsavable.sqlitePath
    · exact hpath
  exact load_of_savable { hsavable with sqlitePath := hvalue }

end Values

/-! ## A file -/

def shareLines : List Line :=
  [asciiLine "source_unc" "\\\\nas\\share".toList, asciiLine "cache_letter" ['q'],
    asciiLine "mode" "Serve".toList, asciiLine "min_free_space_mb" "2048".toList]

def shareConfig : AppConfig where
  sourceUnc := wide "\\\\nas\\share"
  cacheLetter := 0x51
  mode := some .serve
  minFreeBytes := 2048 * mebibyte

theorem load_shareLines :
    loadConfigFile asciiCType (some (shareLines.flatMap Line.write)) = .ok shareConfig := by
  rw [load_lines]
  · decide
  · simp only [shareLines, List.forall_mem_cons]
    exact ⟨legible_asciiLine (by decide) (by decide), legible_asciiLine (by decide) (by decide),
      legible_asciiLine (by decide) (by decide), legible_asciiLine (by decide) (by decide),
      fun _ h => nomatch h⟩

/-- The service saves another mode, with the path of the index it has chosen. -/
theorem reload_shareConfig :
    ∃ bytes, saveConfigFile { shareConfig with
        mode := some .monitor, sqlitePath := wide "C:\\cache-index.sqlite3" } = .ok bytes ∧
      loadConfigFile asciiCType (some bytes) = .ok { shareConfig with
        mode := some .monitor, sqlitePath := wide "C:\\cache-index.sqlite3" } :=
  reload_of_save load_shareLines (by decide) (by decide) (some .monitor)
    (.inr ⟨rfl, by decide, (spelled_ascii (s := "C:\\cache-index.sqlite3".toList)
      (by decide)).value⟩)

end SsdCache
