import SsdCache.Spec.PathMapper

/-!
# The spellings of a remote file

The two parsers of the path mapper accept exactly two grammars and agree on what they
mean.

* `spells_splitFrom`: the split loop returns the components a text spells.
* `lowerRoot_uncRoot_inj`: lowered roots are equal when server and share are, ignoring case.
* `parseUncPath_eq`, `parseDevice_eq`: each parser against its grammar.
* `mapObservedSourcePath_spelling`: **every spelling of a file under a share, and nothing
  else, gets the file's identity**.
-/

namespace SsdCache

open Text

variable {fold : CaseFold}

/-! ## Comparison -/

/-- The two are equal ignoring case. -/
def SameLetters (fold : CaseFold) (left right : WString) : Prop :=
  left.map fold.towlower = right.map fold.towlower

instance (left right : WString) : Decidable (SameLetters fold left right) :=
  inferInstanceAs (Decidable (_ = _))

theorem equalsIgnoreCase_iff {left right : WString} :
    equalsIgnoreCase fold left right = true ↔ SameLetters fold left right := by
  unfold SameLetters
  induction left generalizing right with
  | nil => cases right <;> simp [equalsIgnoreCase]
  | cons u left ih =>
    cases right with
    | nil => simp [equalsIgnoreCase]
    | cons v right =>
      simp only [equalsIgnoreCase] at ih
      simp only [equalsIgnoreCase, List.length_cons, Nat.add_right_cancel_iff, List.zip_cons_cons,
        List.all_cons, Bool.and_eq_true, decide_eq_true_eq, List.map_cons, List.cons.injEq,
        ← @ih right]
      tauto

theorem SameLetters.length_eq {left right : WString} (h : SameLetters fold left right) :
    left.length = right.length := by
  simpa using congrArg List.length h

theorem lowerRoot_lowerRoot (value : WString) :
    lowerRoot fold (lowerRoot fold value) = lowerRoot fold value := by
  simp [lowerRoot, Function.comp_def, fold.towlower_idem]

/-- A text with the letters of one that starts a session starts one. -/
theorem startsSession_congr {left right : WString} (h : SameLetters fold left right)
    (hl : startsSession left = true) : startsSession right = true := by
  cases left with
  | nil => cases hl
  | cons u left =>
    obtain rfl : semicolon = u := by simpa [startsSession, List.isPrefixOf] using hl
    cases right with
    | nil => cases h
    | cons v right =>
      obtain ⟨huv, -⟩ := List.cons.inj h
      have hsemi := (fold.towlower_semicolon semicolon).2 rfl
      have hv : v = semicolon := (fold.towlower_semicolon v).1 (huv ▸ hsemi)
      simp [startsSession, List.isPrefixOf, hv]

/-! ## Components -/

theorem normalizeSeparators_normalizeSeparators (path : WString) :
    normalizeSeparators (normalizeSeparators path) = normalizeSeparators path := by
  have hslash : separator ≠ slash := by decide
  simp only [normalizeSeparators, List.map_map, List.map_inj_left, Function.comp_apply]
  intro u _
  by_cases hu : u = slash
  · rw [if_pos hu, if_neg hslash]
  · rw [if_neg hu, if_neg hu]

/-- **The split loop returns the components of the text.** -/
theorem spells_splitFrom (rest : WString) : Spells separator (splitFrom rest) rest := by
  induction rest using splitFrom.induct with
  | case1 => rw [splitFrom]; exact .nil
  | case2 u us atStart component atEnd hc ih =>
    -- no component before the next separator: the text was separators
    have hs : splitFrom (u :: us) = splitFrom atEnd := by
      rw [splitFrom]; exact if_pos hc
    have hend : atEnd = atStart := by
      have h := List.takeWhile_append_dropWhile (p := (· ≠ separator)) (l := atStart)
      rwa [show atStart.takeWhile (· ≠ separator) = [] from hc, List.nil_append] at h
    rw [hs]
    exact Spells.skip (hend ▸ ih)
  | case3 u us atStart component atEnd hc ih =>
    have hs : splitFrom (u :: us) = component :: splitFrom atEnd := by
      rw [splitFrom]; exact if_neg hc
    rw [hs]
    exact Spells.skip (Spells.take hc ih)

theorem splitPathComponents_eq {path : WString} {cs : List WString} :
    splitPathComponents path = cs ↔ Spells separator cs (normalizeSeparators path) := by
  constructor
  · rintro rfl
    exact spells_splitFrom _
  · exact fun h => (spells_splitFrom _).unique h

theorem appendComponents_cons {relative : WString} (hr : relative ≠ []) (c : WString)
    (cs : List WString) :
    appendComponents relative (c :: cs) = relative ++ separator :: joined separator (c :: cs) := by
  induction cs generalizing relative c with
  | nil => simp [appendComponents, hr, joined]
  | cons d cs ih =>
    have hne : relative ++ [separator] ++ c ≠ [] := by simp
    rw [appendComponents, if_neg hr, ih hne, joined_cons_cons]
    simp

/-- The loop joins the components. -/
theorem appendComponents_nil {cs : List WString} (h : ∀ c ∈ cs, IsField separator c) :
    appendComponents [] cs = joined separator cs := by
  cases cs with
  | nil => rfl
  | cons c cs =>
    rw [appendComponents, if_pos rfl, List.nil_append]
    cases cs with
    | nil => simp [appendComponents, joined]
    | cons d cs =>
      rw [appendComponents_cons (h c List.mem_cons_self).ne_nil, joined_cons_cons]

/-! ## Roots -/

theorem not_mem_map_towlower {c : WString} (hc : separator ∉ c) :
    separator ∉ c.map fold.towlower := by
  intro h
  obtain ⟨u, hu, hl⟩ := List.mem_map.1 h
  obtain rfl := (fold.towlower_separator u).1 hl
  exact hc hu

/-- **Lowered roots are compared by server and share.** -/
theorem lowerRoot_uncRoot_inj {s h s' h' : WString} (hs : separator ∉ s) (hs' : separator ∉ s') :
    lowerRoot fold (uncRoot s h) = lowerRoot fold (uncRoot s' h') ↔
      SameLetters fold s s' ∧ SameLetters fold h h' := by
  have hsep := (fold.towlower_separator separator).2 rfl
  simp only [lowerRoot, uncRoot, List.map_append, List.map_cons, hsep,
    List.cons_append, List.nil_append, List.cons.injEq, true_and]
  constructor
  · intro heq
    have hcut := field_unique (not_mem_map_towlower hs) (not_mem_map_towlower hs')
      (show AtBreak separator (separator :: h.map fold.towlower) from rfl)
      (show AtBreak separator (separator :: h'.map fold.towlower) from rfl) heq
    exact ⟨hcut.1, (List.cons.inj hcut.2).2⟩
  · rintro ⟨hss, hhh⟩
    unfold SameLetters at hss hhh
    rw [hss, hhh]

/-! ## The two grammars -/

/-- `path` is two or more separators, then the components `cs`. -/
structure IsUnc (path : WString) (cs : List WString) : Prop where
  leads : [separator, separator] <+: normalizeSeparators path
  spells : Spells separator cs (normalizeSeparators path)

/-- The two fixed components, as the parser checks them. -/
def IsRedirector (fold : CaseFold) (device redirector : WString) : Prop :=
  SameLetters fold device (wide "Device") ∧
    (SameLetters fold redirector (wide "LanManRedirector") ∨
      SameLetters fold redirector (wide "Mup"))

/-- `path` is a remote-device path to the components `cs`, with or without a session. -/
structure IsDevice (fold : CaseFold) (path : WString) (session : Option WString)
    (cs : List WString) : Prop where
  leads : ¬ [separator, separator] <+: normalizeSeparators path
  spells : ∃ device redirector, IsRedirector fold device redirector ∧
    Spells separator (device :: redirector :: (session.toList ++ cs)) (normalizeSeparators path)
  session_starts : ∀ c ∈ session, startsSession c = true

/-- The identity of the components `server`, `share` and `cs`. -/
def identityOf (fold : CaseFold) (server share : WString) (cs : List WString) : PathIdentity :=
  ⟨lowerRoot fold (uncRoot server share), joined separator cs⟩

theorem startsWith_separators {path : WString} :
    startsWithIgnoreCase fold path [separator, separator] = true ↔
      [separator, separator] <+: path := by
  have hsep := (fold.towlower_separator separator).2 rfl
  match path with
  | [] => simp [startsWithIgnoreCase]
  | [u] => simp [startsWithIgnoreCase]
  | u :: v :: path =>
    have hlen : ¬ (u :: v :: path).length < [separator, separator].length := by simp
    rw [startsWithIgnoreCase, if_neg hlen, equalsIgnoreCase_iff, SameLetters]
    simp only [List.length_cons, List.length_nil, List.take_succ_cons, List.take_zero,
      List.map_cons, List.map_nil, hsep, List.cons.injEq, fold.towlower_separator,
      List.cons_prefix_cons, List.nil_prefix, and_true, eq_comm (a := separator)]

theorem splitPathComponents_isField (path : WString) :
    ∀ c ∈ splitPathComponents path, IsField separator c :=
  (spells_splitFrom _).isField

/-- What both parsers return of the components from the server on. -/
theorem identity_of_drop {components : List WString} (n : ℕ) {s h : WString} {cs : List WString}
    (hc : components.drop n = s :: h :: cs) (hf : ∀ c ∈ components, IsField separator c) :
    (⟨lowerRoot fold (uncRoot (components.getD n []) (components.getD (n + 1) [])),
      appendComponents [] (components.drop (n + 2))⟩ : PathIdentity) = identityOf fold s h cs := by
  have hget (k : ℕ) : components.getD (n + k) [] = (s :: h :: cs).getD k [] := by
    rw [← hc, List.getD_eq_getElem?_getD, List.getD_eq_getElem?_getD, List.getElem?_drop]
  have hdrop : components.drop (n + 2) = cs := by
    rw [← List.drop_drop, hc]; rfl
  have hmem : ∀ c ∈ cs, IsField separator c := fun c hm =>
    hf c (List.mem_of_mem_drop (hdrop ▸ hm))
  rw [hdrop, appendComponents_nil hmem, show components.getD n [] = s from hget 0,
    show components.getD (n + 1) [] = h from hget 1]
  rfl

/-- **`parse_unc_path` against its grammar.** -/
theorem parseUncPath_eq {path : WString} {i : PathIdentity} :
    parseUncPath fold path = some i ↔
      ∃ s h cs, IsUnc path (s :: h :: cs) ∧ i = identityOf fold s h cs := by
  have hsplit : splitPathComponents (normalizeSeparators path) = splitPathComponents path := by
    rw [splitPathComponents, splitPathComponents, normalizeSeparators_normalizeSeparators]
  have hf := splitPathComponents_isField path
  simp only [parseUncPath, hsplit]
  by_cases hl : [separator, separator] <+: normalizeSeparators path
  · rw [startsWith_separators.2 hl, if_neg (by simp)]
    constructor
    · intro h
      split at h
      · cases h
      · rename_i hlen
        obtain ⟨s, sh, cs, hcs⟩ : ∃ s sh cs, splitPathComponents path = s :: sh :: cs := by
          match hcs : splitPathComponents path with
          | [] => rw [hcs] at hlen; exact absurd (by simp) hlen
          | [_] => rw [hcs] at hlen; exact absurd (by simp) hlen
          | s :: sh :: cs => exact ⟨s, sh, cs, rfl⟩
        refine ⟨s, sh, cs, ⟨hl, splitPathComponents_eq.1 hcs⟩, ?_⟩
        rw [← identity_of_drop 0 (by rw [hcs]; rfl) hf]
        exact (Option.some.inj h).symm
    · rintro ⟨s, sh, cs, hunc, rfl⟩
      have hcs := splitPathComponents_eq.2 hunc.spells
      rw [if_neg (by simp [hcs]), ← identity_of_drop 0 (by rw [hcs]; rfl) hf]
  · have hl' :
        ¬ startsWithIgnoreCase fold (normalizeSeparators path) [separator, separator] = true :=
      fun h => hl (startsWith_separators.1 h)
    rw [if_pos (by simpa using hl')]
    constructor
    · intro h
      cases h
    · rintro ⟨_, _, _, hunc, -⟩
      exact absurd hunc.leads hl

/-- A remote-device path whose session, when it has one, is written. -/
def NamesDevice (fold : CaseFold) (path : WString) (s h : WString) (cs : List WString) : Prop :=
  ∃ session, IsDevice fold path session (s :: h :: cs) ∧
    (session = none → startsSession s = false)

/-- The parser wants the two fixed components. -/
theorem parseDevice_none {path device redirector : WString} {rest : List WString}
    (hcs : splitPathComponents path = device :: redirector :: rest)
    (hr : ¬ IsRedirector fold device redirector) :
    parseWindowsRemoteDevicePath fold path = none := by
  simp only [parseWindowsRemoteDevicePath, hcs]
  split
  · rfl
  · split
    · rfl
    · rename_i hd
      refine if_pos ?_
      have hd' : SameLetters fold device (wide "Device") := by simpa [equalsIgnoreCase_iff] using hd
      have hno := not_or.1 fun h => hr ⟨hd', h⟩
      simpa [equalsIgnoreCase_iff, ← equalsIgnoreCase_iff] using hno

/-- The parser on what follows the fixed components. -/
theorem parseDevice_cons {path device redirector third fourth : WString} {rest : List WString}
    (hcs : splitPathComponents path = device :: redirector :: third :: fourth :: rest)
    (hr : IsRedirector fold device redirector) :
    parseWindowsRemoteDevicePath fold path =
      match startsSession third, rest with
      | false, cs => some (identityOf fold third fourth cs)
      | true, share :: cs => some (identityOf fold fourth share cs)
      | true, [] => none := by
  have hf := splitPathComponents_isField path
  have hid (n : ℕ) {s h : WString} {cs : List WString}
      (hdrop : (splitPathComponents path).drop n = s :: h :: cs) :=
    @identity_of_drop fold _ n _ _ _ hdrop hf
  rw [hcs] at hid
  have hlen : ¬ (device :: redirector :: third :: fourth :: rest).length < 4 := by simp
  have hd : ¬ (!equalsIgnoreCase fold device (wide "Device")) = true := by
    simpa [equalsIgnoreCase_iff] using hr.1
  have hr' : ¬ (!equalsIgnoreCase fold redirector (wide "LanManRedirector") &&
      !equalsIgnoreCase fold redirector (wide "Mup")) = true := by
    simpa [equalsIgnoreCase_iff, ← equalsIgnoreCase_iff, or_iff_not_imp_left] using hr.2
  simp only [parseWindowsRemoteDevicePath, hcs]
  refine (if_neg hlen).trans ((if_neg hd).trans ((if_neg hr').trans ?_))
  simp only [List.getD_cons_succ, List.getD_cons_zero]
  cases hthird : startsSession third with
  | false =>
    rw [if_neg Bool.false_ne_true, if_neg (by simp)]
    exact congrArg some (hid 2 rfl)
  | true =>
    rw [if_pos rfl]
    cases rest with
    | nil => exact if_pos (by simp)
    | cons share cs =>
      rw [if_neg (by simp)]
      exact congrArg some (hid 3 rfl)

/-- **`parse_windows_remote_device_path` against its grammar.** -/
theorem parseDevice_eq {path : WString} {i : PathIdentity}
    (hl : ¬ [separator, separator] <+: normalizeSeparators path) :
    parseWindowsRemoteDevicePath fold path = some i ↔
      ∃ s h cs, NamesDevice fold path s h cs ∧ i = identityOf fold s h cs := by
  constructor
  · intro hi
    match hcs : splitPathComponents path with
    | device :: redirector :: third :: fourth :: rest =>
      have hspells := splitPathComponents_eq.1 hcs
      by_cases hr : IsRedirector fold device redirector
      · rw [parseDevice_cons hcs hr] at hi
        -- the third component is the session, or the server
        cases hthird : startsSession third with
        | false =>
          rw [hthird] at hi
          exact ⟨third, fourth, rest, ⟨none, ⟨hl, ⟨device, redirector, hr, hspells⟩, nofun⟩,
            fun _ => hthird⟩, (Option.some.inj hi).symm⟩
        | true =>
          rw [hthird] at hi
          cases rest with
          | nil => cases hi
          | cons share cs =>
            have hstarts : ∀ c ∈ some third, startsSession c = true := by
              rintro _ ⟨⟩
              exact hthird
            exact ⟨fourth, share, cs, ⟨some third, ⟨hl, ⟨device, redirector, hr, hspells⟩, hstarts⟩,
              nofun⟩, (Option.some.inj hi).symm⟩
      · rw [parseDevice_none hcs hr] at hi
        cases hi
    | [] => simp [parseWindowsRemoteDevicePath, hcs] at hi
    | [_] => simp [parseWindowsRemoteDevicePath, hcs] at hi
    | [_, _] => simp [parseWindowsRemoteDevicePath, hcs] at hi
    | [_, _, _] => simp [parseWindowsRemoteDevicePath, hcs] at hi
  · rintro ⟨s, h, cs, ⟨session, ⟨-, ⟨device, redirector, hr, hspells⟩, hstarts⟩, hnone⟩, rfl⟩
    have hcs := splitPathComponents_eq.2 hspells
    cases session with
    | none => rw [parseDevice_cons hcs hr, hnone rfl]
    | some third => rw [parseDevice_cons hcs hr, hstarts third rfl]

/-! ## The mapper -/

/-- The components a path names: server, share and what is below it. -/
def Names (fold : CaseFold) (path : WString) (s h : WString) (cs : List WString) : Prop :=
  IsUnc path (s :: h :: cs) ∨ NamesDevice fold path s h cs

theorem Names.separator_free {path s h : WString} {cs : List WString}
    (hn : Names fold path s h cs) : separator ∉ s := by
  have hf : IsField separator s := by
    rcases hn with hu | ⟨session, hd, -⟩
    · exact hu.spells.isField s List.mem_cons_self
    · obtain ⟨device, redirector, -, hspells⟩ := hd.spells
      exact hspells.isField s (by simp)
  exact hf.free

/-- The two parsers, tried in turn. -/
theorem parse_or_eq {path : WString} {i : PathIdentity} :
    (parseUncPath fold path).or (parseWindowsRemoteDevicePath fold path) = some i ↔
      ∃ s h cs, Names fold path s h cs ∧ i = identityOf fold s h cs := by
  by_cases hl : [separator, separator] <+: normalizeSeparators path
  · -- a path that leads with two separators is no device path
    have hdev : ∀ {s h cs}, ¬ NamesDevice fold path s h cs := fun ⟨_, hd, _⟩ => hd.leads hl
    simp only [Names, hdev, or_false]
    rw [← parseUncPath_eq]
    cases hu : parseUncPath fold path with
    | some j => simp
    | none =>
      -- fewer than two components, so the second parser fails as well
      suffices parseWindowsRemoteDevicePath fold path = none by simp [this]
      match hcs : splitPathComponents path with
      | [] => simp [parseWindowsRemoteDevicePath, hcs]
      | [_] => simp [parseWindowsRemoteDevicePath, hcs]
      | s :: h :: cs =>
        have hunc : IsUnc path (s :: h :: cs) := ⟨hl, splitPathComponents_eq.1 hcs⟩
        rw [parseUncPath_eq.2 ⟨s, h, cs, hunc, rfl⟩] at hu
        cases hu
  · have hunc : ∀ {cs}, ¬ IsUnc path cs := fun hu => hl hu.leads
    have hnone : parseUncPath fold path = none := by
      refine Option.eq_none_iff_forall_ne_some.2 fun j hj => ?_
      obtain ⟨_, _, _, hu, -⟩ := parseUncPath_eq.1 hj
      exact hunc hu
    rw [hnone, Option.none_or, parseDevice_eq hl]
    simp only [Names, hunc, false_or]

/-- **A path is mapped if it names the configured server and share.** -/
theorem mapObservedSourcePath_eq {sourceUnc path s h : WString} {fs : List WString}
    (hU : IsUnc sourceUnc (s :: h :: fs)) {i : PathIdentity} :
    mapObservedSourcePath fold sourceUnc path = some i ↔
      ∃ s' h' cs, Names fold path s' h' cs ∧ SameLetters fold s' s ∧ SameLetters fold h' h ∧
        i = identityOf fold s h cs := by
  have hs : separator ∉ s := (show Names fold sourceUnc s h fs from .inl hU).separator_free
  have hroot : parseUncPath fold sourceUnc = some (identityOf fold s h fs) :=
    parseUncPath_eq.2 ⟨s, h, fs, hU, rfl⟩
  have hcompare {s' h' : WString} {cs : List WString} (hn : Names fold path s' h' cs) :
      equalsIgnoreCase fold (lowerRoot fold (uncRoot s' h')) (lowerRoot fold (uncRoot s h)) =
        true ↔ SameLetters fold s' s ∧ SameLetters fold h' h := by
    rw [equalsIgnoreCase_iff, ← lowerRoot_uncRoot_inj hn.separator_free hs]
    change lowerRoot fold (lowerRoot fold _) = lowerRoot fold (lowerRoot fold _) ↔ _
    rw [lowerRoot_lowerRoot, lowerRoot_lowerRoot]
  simp only [mapObservedSourcePath, hroot]
  constructor
  · intro hi
    split at hi
    · cases hi
    · rename_i observed ho
      obtain ⟨s', h', cs, hn, rfl⟩ := parse_or_eq.1 ho
      split at hi
      · cases hi
      · rename_i heq
        have heq' := (hcompare hn).1 (by simpa [identityOf] using heq)
        obtain rfl := Option.some.inj hi
        refine ⟨s', h', cs, hn, heq'.1, heq'.2, ?_⟩
        rw [identityOf, identityOf, (lowerRoot_uncRoot_inj hn.separator_free hs).2 heq']
  · rintro ⟨s', h', cs, hn, hss, hhh, rfl⟩
    rw [parse_or_eq.2 ⟨s', h', cs, hn, rfl⟩]
    refine (if_neg (by simpa [identityOf] using (hcompare hn).2 ⟨hss, hhh⟩)).trans ?_
    rw [identityOf, identityOf, (lowerRoot_uncRoot_inj hn.separator_free hs).2 ⟨hss, hhh⟩]

/-- `path` is in one of the two forms, for the components `s`, `h` and `cs`. -/
def Spelling (fold : CaseFold) (path : WString) (s h : WString) (cs : List WString) : Prop :=
  IsUnc path (s :: h :: cs) ∨ ∃ session, IsDevice fold path session (s :: h :: cs)

/-- **All spellings of a remote file get one identity, and nothing else does.** -/
theorem mapObservedSourcePath_spelling (fold : CaseFold) {sourceUnc s h : WString}
    (hunc : (parseUncPath fold sourceUnc).isSome = true)
    (hroot : splitPathComponents sourceUnc = [s, h]) (hs : startsSession s = false)
    (path : WString) :
    ((mapObservedSourcePath fold sourceUnc path).isSome = true ↔
      ∃ s' h' cs, Spelling fold path s' h' cs ∧ SameLetters fold s' s ∧ SameLetters fold h' h) ∧
    ∀ s' h' cs, Spelling fold path s' h' cs → SameLetters fold s' s → SameLetters fold h' h →
      mapObservedSourcePath fold sourceUnc path =
        some ⟨lowerRoot fold (uncRoot s h), joined separator cs⟩ := by
  have hU : IsUnc sourceUnc [s, h] := by
    obtain ⟨i, hi⟩ := Option.isSome_iff_exists.1 hunc
    obtain ⟨s', h', cs, hU, -⟩ := parseUncPath_eq.1 hi
    rwa [← splitPathComponents_eq.2 hU.spells, hroot] at hU
  have hnames : ∀ {s' h' cs}, SameLetters fold s' s →
      (Spelling fold path s' h' cs ↔ Names fold path s' h' cs) := by
    intro s' h' cs hss
    have hs' : startsSession s' = false := by
      cases hc : startsSession s' with
      | false => rfl
      | true => rw [startsSession_congr hss hc] at hs; cases hs
    exact or_congr_right ⟨fun ⟨session, hd⟩ => ⟨session, hd, fun _ => hs'⟩,
      fun ⟨session, hd, _⟩ => ⟨session, hd⟩⟩
  constructor
  · rw [Option.isSome_iff_exists]
    constructor
    · rintro ⟨i, hi⟩
      obtain ⟨s', h', cs, hn, hss, hhh, -⟩ := (mapObservedSourcePath_eq hU).1 hi
      exact ⟨s', h', cs, (hnames hss).2 hn, hss, hhh⟩
    · rintro ⟨s', h', cs, hn, hss, hhh⟩
      exact ⟨_, (mapObservedSourcePath_eq hU).2 ⟨s', h', cs, (hnames hss).1 hn, hss, hhh, rfl⟩⟩
  · intro s' h' cs hn hss hhh
    exact (mapObservedSourcePath_eq hU).2 ⟨s', h', cs, (hnames hss).1 hn, hss, hhh, rfl⟩

/-- The redirector's form of a file of `\\NasBox\Share`. -/
theorem redirected_file :
    mapObservedSourcePath asciiLower (wide "\\\\NasBox\\Share")
        (wide "\\Device\\Mup\\;N:0\\nasbox/SHARE\\a//b.txt\\") =
      some ⟨wide "\\\\nasbox\\share", wide "a\\b.txt"⟩ := by
  have hspells : Spells separator
      (wide "Device" :: wide "Mup" :: ([wide ";N:0"] ++
        [wide "nasbox", wide "SHARE", wide "a", wide "b.txt"]))
      (normalizeSeparators (wide "\\Device\\Mup\\;N:0\\nasbox/SHARE\\a//b.txt\\")) :=
    splitPathComponents_eq.1 (by decide +kernel)
  have hdevice : IsDevice asciiLower (wide "\\Device\\Mup\\;N:0\\nasbox/SHARE\\a//b.txt\\")
      (some (wide ";N:0")) [wide "nasbox", wide "SHARE", wide "a", wide "b.txt"] :=
    ⟨by decide, ⟨_, _, ⟨by decide, .inr (by decide)⟩, hspells⟩, by decide⟩
  exact (mapObservedSourcePath_spelling asciiLower (s := wide "NasBox") (h := wide "Share")
    (by decide +kernel) (by decide +kernel) (by decide) _).2 _ _ _ (.inr ⟨_, hdevice⟩)
    (by decide) (by decide)

end SsdCache
