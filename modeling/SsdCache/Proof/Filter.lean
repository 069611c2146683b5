import SsdCache.Spec.Filter
import SsdCache.Spec.ServiceHost

/-!
# The filter means what its patterns say

The matcher's loop holds one start of the latest `*` at a time. What it may still accept is
what the rest of the pattern covers from here, or what a later start of that `*` covers
(`Open`); the earlier `*` can be forgotten, since a later start of one is a start of the
latest.

* `open_advance`, `open_atStar`, `open_backtrack`: every step keeps what may be accepted.
* `wildcardLoop_accepts`: the loop accepts what may be accepted where it starts.
* `filters_iff`: the filters of the service are those of its configuration.
* `wildcard_filter`: **the matcher and the filter mean what the patterns say.**
-/

namespace SsdCache

open Text

variable {ctype : CType} {pattern value : WString} {st : WildcardState} {u : UInt16} {i : ℕ}

/-! ## Tokens -/

theorem wildcardToken_eq_run : wildcardToken u = .run ↔ u = asterisk := by
  unfold wildcardToken
  by_cases hu : u = asterisk
  · simp [hu]
  · by_cases hq : u = questionMark
    · simp [hq, show ¬ questionMark = asterisk by decide]
    · simp [hu, hq]

/-- What `wildcard_match_ignore_case` compares. -/
theorem wildcardToken_takes (hu : u ≠ asterisk) {a : UInt16} :
    (wildcardToken u).Takes [a] ↔ u = questionMark ∨ u = a := by
  unfold wildcardToken
  rw [if_neg hu]
  by_cases hq : u = questionMark
  · rw [if_pos hq]
    exact iff_of_true ⟨a, rfl⟩ (.inl hq)
  · rw [if_neg hq]
    simp [Token.Takes, hq, eq_comm]

/-- The tokens of the pattern from an index on. -/
def tokens (pattern : WString) (i : ℕ) : List (Token UInt16) :=
  (pattern.drop i).map wildcardToken

theorem tokens_cons (h : i < pattern.length) :
    tokens pattern i = wildcardToken pattern[i] :: tokens pattern (i + 1) := by
  unfold tokens
  rw [List.drop_eq_getElem_cons h, List.map_cons]

theorem tokens_nil (h : pattern.length ≤ i) : tokens pattern i = [] := by
  unfold tokens
  rw [List.drop_eq_nil_of_le h, List.map_nil]

theorem skipStars_iff (h : i ≤ pattern.length) :
    skipStars pattern i = pattern.length ↔ Text.Covers (tokens pattern i) ([] : WString) := by
  have hlen : (pattern.drop i).length = pattern.length - i := List.length_drop
  have hle := (List.takeWhile_sublist (l := pattern.drop i) (· = asterisk)).length_le
  have hall : skipStars pattern i = pattern.length ↔
      (pattern.drop i).takeWhile (· = asterisk) = pattern.drop i := by
    unfold skipStars
    constructor
    · intro hs
      exact (List.takeWhile_prefix _).eq_of_length (by omega)
    · intro hs
      rw [hs]
      omega
  rw [hall, List.takeWhile_eq_self_iff, covers_nil_right, tokens, List.forall_mem_map]
  simp only [decide_eq_true_eq, wildcardToken_eq_run]

/-! ## What may be accepted -/

/-- The pattern between the latest `*` and here took what is of the value between the start of
that `*` and here, one unit each. -/
structure Aligned (pattern value : WString) (st : WildcardState) : Prop where
  le : st.patternIndex ≤ pattern.length
  segment : ∀ s ∈ st.starIndex, ∃ us x,
    tokens pattern (s + 1) = us ++ tokens pattern st.patternIndex ∧ .run ∉ us ∧
      value.drop st.starMatchIndex = x ++ value.drop st.valueIndex ∧ x.length = us.length

/-- The rest of the pattern covers the rest of the value, or the latest `*` does from a later
start. -/
def Open (pattern value : WString) (st : WildcardState) : Prop :=
  Text.Covers (tokens pattern st.patternIndex) (value.drop st.valueIndex) ∨
    ∃ s ∈ st.starIndex,
      Text.Covers (.run :: tokens pattern (s + 1)) (value.drop (st.starMatchIndex + 1))

/-- The loop's pattern unit takes the value's. -/
def Taken (pattern value : WString) (st : WildcardState) : Prop :=
  ∃ (hp : st.patternIndex < pattern.length) (hv : st.valueIndex < value.length),
    pattern[st.patternIndex] ≠ asterisk ∧
      (pattern[st.patternIndex] = questionMark ∨ pattern[st.patternIndex] = value[st.valueIndex])

theorem Aligned.advance (h : Aligned pattern value st) (ht : Taken pattern value st) :
    Aligned pattern value st.advance := by
  obtain ⟨hp, hv, hstar, -⟩ := ht
  refine ⟨hp, fun s hs => ?_⟩
  obtain ⟨us, x, hus, hrun, hx, hlen⟩ := h.segment s hs
  rw [tokens_cons hp] at hus
  rw [List.drop_eq_getElem_cons hv] at hx
  refine ⟨us ++ [wildcardToken pattern[st.patternIndex]], x ++ [value[st.valueIndex]],
    ?_, ?_, ?_, ?_⟩
  · rw [hus, List.append_assoc]
    rfl
  · rw [List.mem_append, List.mem_singleton]
    rintro (hm | hm)
    · exact hrun hm
    · exact hstar (wildcardToken_eq_run.1 hm.symm)
  · show value.drop st.starMatchIndex = _
    rw [hx, List.append_assoc]
    rfl
  · simp [hlen]

/-- **A unit taken** leaves what may be accepted. -/
theorem open_advance (ht : Taken pattern value st) :
    Open pattern value st.advance ↔ Open pattern value st := by
  obtain ⟨hp, hv, hstar, htake⟩ := ht
  have hrun : wildcardToken pattern[st.patternIndex] ≠ .run := fun heq =>
    hstar (wildcardToken_eq_run.1 heq)
  have hcovers : Text.Covers (tokens pattern st.patternIndex) (value.drop st.valueIndex) ↔
      Text.Covers (tokens pattern (st.patternIndex + 1)) (value.drop (st.valueIndex + 1)) := by
    rw [tokens_cons hp, List.drop_eq_getElem_cons hv, covers_single_cons hrun]
    exact and_iff_right ((wildcardToken_takes hstar).2 htake)
  unfold Open
  rw [hcovers]
  exact Iff.rfl

theorem aligned_atStar (hp : st.patternIndex < pattern.length) :
    Aligned pattern value st.atStar := by
  refine ⟨hp, fun s hs => ⟨[], [], ?_, List.not_mem_nil, rfl, rfl⟩⟩
  obtain rfl := Option.some.inj hs
  rfl

/-- **A `*`**: the earlier one is forgotten. -/
theorem open_atStar (h : Aligned pattern value st) (hp : st.patternIndex < pattern.length)
    (hv : st.valueIndex < value.length) (hstar : pattern[st.patternIndex] = asterisk) :
    Open pattern value st.atStar ↔ Open pattern value st := by
  have hrun : wildcardToken pattern[st.patternIndex] = .run := wildcardToken_eq_run.2 hstar
  have hhere : tokens pattern st.patternIndex = .run :: tokens pattern (st.patternIndex + 1) := by
    rw [tokens_cons hp, hrun]
  have hnew : Open pattern value st.atStar ↔
      Text.Covers (tokens pattern st.patternIndex) (value.drop st.valueIndex) := by
    rw [hhere, List.drop_eq_getElem_cons hv, covers_run_cons, ← List.drop_eq_getElem_cons hv]
    refine or_congr Iff.rfl ⟨?_, fun hc => ⟨_, rfl, hc⟩⟩
    rintro ⟨s, hs, hc⟩
    obtain rfl := Option.some.inj hs
    exact hc
  rw [hnew]
  refine ⟨.inl, ?_⟩
  rintro (hc | ⟨s, hs, hc⟩)
  · exact hc
  · -- a later start of the earlier `*` is a start of this one
    obtain ⟨us, x, hus, hfree, hx, hlen⟩ := h.segment s hs
    rw [hus, hhere] at hc
    rw [hhere]
    refine covers_run_of_later hfree hlen ?_ hc
    rw [← hx]
    exact List.drop_suffix_drop_left value (Nat.le_succ _)

/-- The loop's pattern unit neither takes the value's nor is a `*`. -/
theorem not_covers_here (hv : st.valueIndex < value.length)
    (hp : ¬ ∃ h : st.patternIndex < pattern.length, pattern[st.patternIndex] = questionMark ∨
      pattern[st.patternIndex] = value[st.valueIndex])
    (hs : ¬ ∃ h : st.patternIndex < pattern.length, pattern[st.patternIndex] = asterisk) :
    ¬ Text.Covers (tokens pattern st.patternIndex) (value.drop st.valueIndex) := by
  rw [List.drop_eq_getElem_cons hv]
  by_cases hlt : st.patternIndex < pattern.length
  · have hstar : pattern[st.patternIndex] ≠ asterisk := fun heq => hs ⟨hlt, heq⟩
    have hrun : wildcardToken pattern[st.patternIndex] ≠ .run := fun heq =>
      hstar (wildcardToken_eq_run.1 heq)
    rw [tokens_cons hlt, covers_single_cons hrun]
    exact fun hc => hp ⟨hlt, (wildcardToken_takes hstar).1 hc.1⟩
  · rw [tokens_nil (Nat.le_of_not_lt hlt), covers_nil_left]
    exact List.cons_ne_nil _ _

theorem aligned_backtrack {s : ℕ} (h : Aligned pattern value st) (hs : s ∈ st.starIndex) :
    Aligned pattern value (st.backtrack s) := by
  have hlt := st.starIndex_lt s hs
  have hle := h.le
  refine ⟨show s + 1 ≤ pattern.length by omega, fun i hi => ?_⟩
  refine ⟨[], [], ?_, List.not_mem_nil, rfl, rfl⟩
  obtain rfl := Option.some.inj hi
  rfl

/-- **Back to the latest `*`**, which takes one unit more. -/
theorem open_backtrack {s : ℕ} (hs : s ∈ st.starIndex)
    (hnot : ¬ Text.Covers (tokens pattern st.patternIndex) (value.drop st.valueIndex)) :
    Open pattern value (st.backtrack s) ↔ Open pattern value st := by
  have hold : Open pattern value st ↔
      Text.Covers (.run :: tokens pattern (s + 1)) (value.drop (st.starMatchIndex + 1)) := by
    unfold Open
    constructor
    · rintro (hc | ⟨i, hi, hc⟩)
      · exact absurd hc hnot
      · obtain rfl := Option.mem_unique hi hs
        exact hc
    · exact fun hc => .inr ⟨s, hs, hc⟩
  have hnew : Open pattern value (st.backtrack s) ↔
      Text.Covers (tokens pattern (s + 1)) (value.drop (st.starMatchIndex + 1)) ∨
        Text.Covers (.run :: tokens pattern (s + 1)) (value.drop (st.starMatchIndex + 1 + 1)) := by
    refine or_congr Iff.rfl ⟨?_, fun hc => ⟨s, rfl, hc⟩⟩
    rintro ⟨i, hi, hc⟩
    obtain rfl := Option.some.inj hi
    exact hc
  rw [hnew, hold]
  by_cases hend : st.starMatchIndex + 1 < value.length
  · rw [List.drop_eq_getElem_cons hend, covers_run_cons]
  · -- nothing is left to take
    have hnil : ∀ k, st.starMatchIndex + 1 ≤ k → value.drop k = [] := fun k hk =>
      List.drop_eq_nil_of_le (by omega)
    rw [hnil _ le_rfl, hnil _ (Nat.le_succ _), covers_nil_right, covers_nil_right,
      List.forall_mem_cons]
    tauto

/-! ## The loop -/

/-- At the end of the value there is no later start. -/
theorem open_of_end (h : Aligned pattern value st) (hv : value.length ≤ st.valueIndex) :
    Open pattern value st ↔ Text.Covers (tokens pattern st.patternIndex) ([] : WString) := by
  have hnil : value.drop st.valueIndex = [] := List.drop_eq_nil_of_le hv
  unfold Open
  rw [hnil]
  refine ⟨?_, .inl⟩
  rintro (hc | ⟨s, hs, hc⟩)
  · exact hc
  · obtain ⟨us, x, hus, hfree, hx, hlen⟩ := h.segment s hs
    rw [hnil, List.append_nil] at hx
    have hlater : (value.drop (st.starMatchIndex + 1)).length = x.length - 1 := by
      rw [← hx, List.length_drop, List.length_drop]
      omega
    rw [hus] at hc
    by_cases hzero : us.length = 0
    · obtain rfl := List.length_eq_zero_iff.1 hzero
      have hdone : value.drop (st.starMatchIndex + 1) = [] :=
        List.length_eq_zero_iff.1 (by omega)
      rw [hdone, covers_nil_right, List.forall_mem_cons, List.nil_append] at hc
      exact covers_nil_right.2 hc.2
    · exact absurd hc (not_covers_run_of_short hfree (by omega))

/-- **The loop accepts what may be accepted where it is.** -/
theorem wildcardLoop_accepts (hvalue : asterisk ∉ value) (h : Aligned pattern value st) :
    (∃ i ∈ wildcardLoop pattern value st, skipStars pattern i = pattern.length) ↔
      Open pattern value st := by
  induction st using wildcardLoop.induct pattern value with
  | case1 st hv hp ih =>
    have ht : Taken pattern value st := by
      obtain ⟨hlt, htake⟩ := hp
      refine ⟨hlt, hv, fun hstar => ?_, htake⟩
      -- the value has no `*`
      rw [hstar] at htake
      rcases htake with heq | heq
      · exact absurd heq (by decide)
      · exact hvalue (heq ▸ List.getElem_mem hv)
    rw [wildcardLoop, dif_pos hv, dif_pos hp, ih (h.advance ht), open_advance ht]
  | case2 st hv hp hs ih =>
    rw [wildcardLoop, dif_pos hv, dif_neg hp, dif_pos hs, ih (aligned_atStar hs.1),
      open_atStar h hs.1 hv hs.2]
  | case3 st hv hp hs s hi ih =>
    have hloop : wildcardLoop pattern value st = wildcardLoop pattern value (st.backtrack s) := by
      rw [wildcardLoop, dif_pos hv, dif_neg hp, dif_neg hs]
      split
      · rename_i i heq
        rw [hi] at heq
        cases heq
        rfl
      · rename_i heq
        rw [hi] at heq
        cases heq
    rw [hloop, ih (aligned_backtrack h hi), open_backtrack hi (not_covers_here hv hp hs)]
  | case4 st hv hp hs hi =>
    have hloop : wildcardLoop pattern value st = none := by
      rw [wildcardLoop, dif_pos hv, dif_neg hp, dif_neg hs]
      split
      · rename_i i heq
        rw [hi] at heq
        cases heq
      · rfl
    rw [hloop]
    refine iff_of_false (by simp) ?_
    rintro (hc | ⟨s, hmem, -⟩)
    · exact not_covers_here hv hp hs hc
    · rw [hi] at hmem
      cases hmem
  | case5 st hv =>
    rw [wildcardLoop, dif_neg hv, open_of_end h (Nat.le_of_not_lt hv), ← skipStars_iff h.le]
    simp

/-! ## The filter -/

theorem lowerCopy_eq (ctype : CType) (value : WString) :
    lowerCopy ctype value = value.map ctype.towlower := rfl

theorem wildcardMatch_iff (hfold : ∀ u, ctype.towlower u = asterisk → u = asterisk)
    (hvalue : asterisk ∉ value) :
    wildcardMatchIgnoreCase ctype pattern value = true ↔ WildcardMatches ctype pattern value := by
  have hlowered : asterisk ∉ lowerCopy ctype value := by
    intro hm
    obtain ⟨u, hu, heq⟩ := List.mem_map.1 hm
    exact hvalue (hfold u heq ▸ hu)
  have h0 : Aligned (lowerCopy ctype pattern) (lowerCopy ctype value) .start :=
    ⟨Nat.zero_le _, nofun⟩
  have hopen : Open (lowerCopy ctype pattern) (lowerCopy ctype value) .start ↔
      WildcardMatches ctype pattern value := by
    unfold WildcardMatches
    rw [← lowerCopy_eq, ← lowerCopy_eq]
    simp [Open, tokens, WildcardState.start]
  rw [← hopen, ← wildcardLoop_accepts hlowered h0]
  simp only [wildcardMatchIgnoreCase]
  cases wildcardLoop (lowerCopy ctype pattern) (lowerCopy ctype value) .start with
  | none => simp
  | some i => simp

theorem filenameFromPath_append {folder filename : WString} (hu : isPathSeparator u = true)
    (hfree : ∀ v ∈ filename, isPathSeparator v = false) :
    filenameFromPath (folder ++ u :: filename) = filename := by
  have hpass : ∀ v ∈ filename.reverse, (!isPathSeparator v) = true := by
    intro v hv
    rw [hfree v (List.mem_reverse.1 hv)]
    rfl
  have hreverse : (folder ++ u :: filename).reverse = filename.reverse ++ u :: folder.reverse := by
    simp
  unfold filenameFromPath List.rtakeWhile
  rw [hreverse, List.takeWhile_append_of_pos hpass, List.takeWhile_cons, hu]
  simp

/-- `filename_from_path` gives what is left after the last separator. -/
theorem isFilename_iff {path filename : WString} :
    IsFilename path filename ↔ filename = filenameFromPath path := by
  constructor
  · rintro ⟨hfree, rfl | ⟨folder, u, hu, rfl⟩⟩
    · exact (List.rtakeWhile_eq_self_iff.2 fun v hv => by simp [hfree v hv]).symm
    · exact (filenameFromPath_append hu hfree).symm
  · rintro rfl
    refine ⟨fun v hv => by simpa using List.mem_rtakeWhile_imp hv, ?_⟩
    have hcut : path.rdropWhile (fun u => !isPathSeparator u) ++ filenameFromPath path = path :=
      List.rdropWhile_append_rtakeWhile
    by_cases hnil : path.rdropWhile (fun u => !isPathSeparator u) = []
    · rw [hnil, List.nil_append] at hcut
      exact .inl hcut.symm
    · -- the folder ends in a separator
      have hlast := List.rdropWhile_last_not (fun u => !isPathSeparator u) path hnil
      refine .inr ⟨(path.rdropWhile fun u => !isPathSeparator u).dropLast, _,
        by simpa using hlast, ?_⟩
      rw [List.append_cons, List.dropLast_append_getLast hnil]
      exact hcut.symm

theorem valueMatches_iff (hfold : ∀ u, ctype.towlower u = asterisk → u = asterisk)
    (hvalue : asterisk ∉ value) {patterns : List WString} :
    valueMatchesAnyPattern ctype patterns value = true ↔ value ≠ [] ∧ ∃ pattern ∈ patterns,
      WildcardMatches ctype pattern value ∨
        ∃ filename, IsFilename value filename ∧ WildcardMatches ctype pattern filename := by
  have hfilename : asterisk ∉ filenameFromPath value := fun hm =>
    hvalue ((List.rtakeWhile_suffix _ value).subset hm)
  unfold valueMatchesAnyPattern
  by_cases hnil : value = []
  · simp [hnil]
  · rw [if_neg hnil]
    simp only [List.any_eq_true, Bool.or_eq_true, wildcardMatch_iff hfold hvalue,
      wildcardMatch_iff hfold hfilename, isFilename_iff, exists_eq_left, ne_eq, hnil,
      not_false_eq_true, true_and]

/-- The filters that `run_worker` takes from its configuration. -/
def AppConfig.filters (ctype : CType) (config : AppConfig) (isDirectory : WString → Bool) :
    Filters where
  pathIgnored := pathMatchesIgnoredPatterns ctype config
  processIgnored := processMatchesIgnoredPatterns ctype config
  isDirectory := isDirectory

/-- **The service ignores** the paths and the programs that a pattern of theirs matches. -/
theorem filters_iff (hfold : ∀ u, ctype.towlower u = asterisk → u = asterisk)
    (config : AppConfig) (isDirectory : WString → Bool) (hvalue : asterisk ∉ value) :
    ((config.filters ctype isDirectory).pathIgnored value = true ↔
      value ≠ [] ∧ ∃ pattern ∈ config.ignoredPathPatterns, WildcardMatches ctype pattern value ∨
        ∃ filename, IsFilename value filename ∧ WildcardMatches ctype pattern filename) ∧
    ((config.filters ctype isDirectory).processIgnored value = true ↔
      value ≠ [] ∧ ∃ pattern ∈ config.ignoredProcessPatterns,
        WildcardMatches ctype pattern value ∨
          ∃ filename, IsFilename value filename ∧ WildcardMatches ctype pattern filename) :=
  ⟨valueMatches_iff hfold hvalue, valueMatches_iff hfold hvalue⟩

/-- **The filter means what its patterns say**, for every value without a `*`. -/
theorem wildcard_filter (hfold : ∀ u, ctype.towlower u = asterisk → u = asterisk) :
    (∀ pattern value : WString, asterisk ∉ value →
      (wildcardMatchIgnoreCase ctype pattern value = true ↔ WildcardMatches ctype pattern value)) ∧
    ∀ (patterns : List WString) (value : WString), asterisk ∉ value →
      (valueMatchesAnyPattern ctype patterns value = true ↔ value ≠ [] ∧ ∃ pattern ∈ patterns,
        WildcardMatches ctype pattern value ∨
          ∃ filename, IsFilename value filename ∧ WildcardMatches ctype pattern filename) :=
  ⟨fun _ _ hvalue => wildcardMatch_iff hfold hvalue,
    fun _ _ hvalue => valueMatches_iff hfold hvalue⟩

/-- Capitals and the folder make no difference, and the hyphen is not optional. -/
theorem wildcard_filter_journal :
    valueMatchesAnyPattern asciiCType [wide "~$*", wide "*-WAL"] (wide "db\\a-wal-wal") = true ∧
      valueMatchesAnyPattern asciiCType [wide "~$*", wide "*-WAL"] (wide "WAL") = false := by
  have hfold : ∀ u, asciiCType.towlower u = asterisk → u = asterisk := by
    intro u
    simp only [asciiCType, asterisk]
    grind
  have hfilter := (wildcard_filter hfold).2 [wide "~$*", wide "*-WAL"]
  constructor
  · have hcovers : WildcardMatches asciiCType (wide "*-WAL") (wide "db\\a-wal-wal") := by
      refine ⟨[wide "db\\a-wal", [0x2D], [0x77], [0x61], [0x6C]], by decide, ?_⟩
      show List.Forall₂ Token.Takes [.run, .lit 0x2D, .lit 0x77, .lit 0x61, .lit 0x6C] _
      exact .cons trivial (.cons rfl (.cons rfl (.cons rfl (.cons rfl .nil))))
    exact (hfilter _ (by decide)).2 ⟨by decide, wide "*-WAL", by decide, .inl hcovers⟩
  · have htilde : ¬ WildcardMatches asciiCType (wide "~$*") (wide "WAL") := by
      show ¬ Text.Covers [.lit 0x7E, .lit 0x24, .run] [0x77, 0x61, 0x6C]
      rw [covers_single_cons (by decide)]
      exact fun h => absurd h.1 (by unfold Token.Takes; decide)
    have hhyphen : ¬ WildcardMatches asciiCType (wide "*-WAL") (wide "WAL") := by
      have hshort : ¬ Text.Covers
          (.run :: ([.lit 0x2D, .lit 0x77, .lit 0x61, .lit 0x6C] ++ ([] : List (Token UInt16))))
          [0x77, 0x61, 0x6C] := not_covers_run_of_short (by decide) (by decide)
      exact hshort
    rw [← Bool.not_eq_true, hfilter _ (by decide)]
    rintro ⟨-, pattern, hpattern, hmatch⟩
    -- without a separator the file name is the whole value
    have hwhole : WildcardMatches asciiCType pattern (wide "WAL") := by
      rcases hmatch with hmatch | ⟨filename, hname, hmatch⟩
      · exact hmatch
      · rw [isFilename_iff.1 hname] at hmatch
        exact hmatch
    rcases List.mem_cons.1 hpattern with rfl | hpattern
    · exact htilde hwhole
    · obtain rfl := List.mem_singleton.1 hpattern
      exact hhyphen hwhole

end SsdCache
