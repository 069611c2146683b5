import SsdCache.Proof.PathGrammar
import SsdCache.Spec.Config
import Mathlib.Data.List.Forall2

/-!
# Resolving a mapped path

`map_observed_source_path` compares server and share, and the resolver joins the relative
path onto the whole configured UNC. The two are inverse for a share root only.

* `splitPathComponents_joinRootRelative`: a join has the components of its parts.
* `sameLetters_cacheAbsolute`: canonical paths have one cache file when they are equal
  ignoring case.
* `roundTrip_iff`: **a path that names the configured share comes back if the
  configured UNC is a bare share root**.
-/

namespace SsdCache

open Text

variable {fold : CaseFold}

/-! ## Joining -/

theorem normalizeSeparators_of_free {path : WString} (h : slash ∉ path) :
    normalizeSeparators path = path := by
  refine (List.map_congr_left fun u hu => ?_).trans (List.map_id path)
  refine if_neg fun heq => h ?_
  rwa [← heq]

theorem slash_not_mem_normalize (path : WString) : slash ∉ normalizeSeparators path := by
  intro h
  obtain ⟨u, -, hu⟩ := List.mem_map.1 h
  split at hu
  · exact absurd hu (by decide)
  · rename_i hne
    exact hne hu

/-- **A join has the components of its parts.** -/
theorem splitPathComponents_joinRootRelative (root relativePath : WString) :
    splitPathComponents (joinRootRelative root relativePath) =
      splitPathComponents root ++ splitPathComponents relativePath := by
  set result := (normalizeSeparators root).rdropWhile (· = separator) with hresult
  set relative := trimLeadingSeparators relativePath with hrelative
  have hfree : slash ∉ result := fun h =>
    slash_not_mem_normalize root ((List.rdropWhile_prefix _ _).subset h)
  have hfree' : slash ∉ relative := fun h =>
    slash_not_mem_normalize relativePath ((List.dropWhile_sublist _).subset h)
  have hroot : Spells separator (splitPathComponents root) result := by
    have h := spells_splitFrom result
    have hcs : splitFrom result = splitPathComponents root :=
      h.of_rdropWhile.unique (spells_splitFrom _)
    rwa [hcs] at h
  have hbelow : Spells separator (splitPathComponents relativePath) relative := by
    have h := spells_splitFrom relative
    have hcs : splitFrom relative = splitPathComponents relativePath :=
      h.skip.unique (spells_splitFrom _)
    rwa [hcs] at h
  have hjoin : joinRootRelative root relativePath =
      if relative = [] then result else result ++ separator :: relative := rfl
  rw [splitPathComponents_eq, hjoin]
  by_cases hr : relative = []
  · rw [hr] at hbelow
    have hnil : splitPathComponents relativePath = [] := hbelow.unique .nil
    rwa [if_pos hr, hnil, List.append_nil, normalizeSeparators_of_free hfree]
  · have hsep : slash ≠ separator := by decide
    rw [if_neg hr, normalizeSeparators_of_free (by simp [hfree, hfree', hsep])]
    exact hroot.append rfl (.sep hbelow)

/-- The components below the share, as `path` spells them. -/
theorem Names.below {path s h : WString} {cs : List WString} (hn : Names fold path s h cs) :
    ∀ c ∈ cs, IsField separator c ∧ slash ∉ c := by
  obtain ⟨above, hspells⟩ : ∃ above, Spells separator (above ++ cs) (normalizeSeparators path) := by
    rcases hn with hu | ⟨session, hd, -⟩
    · exact ⟨[s, h], hu.spells⟩
    · obtain ⟨device, redirector, -, hspells⟩ := hd.spells
      exact ⟨device :: redirector :: (session.toList ++ [s, h]), by simpa using hspells⟩
  intro c hc
  have hc' := List.mem_append_right above hc
  exact ⟨hspells.isField c hc', fun hu => slash_not_mem_normalize path (hspells.subset c hc' hu)⟩

theorem normalizeSeparators_joined {cs : List WString}
    (h : ∀ c ∈ cs, IsField separator c ∧ slash ∉ c) :
    normalizeSeparators (joined separator cs) = joined separator cs := by
  refine normalizeSeparators_of_free fun hu => ?_
  rcases mem_joined hu with heq | ⟨c, hc, hu'⟩
  · exact absurd heq (by decide)
  · exact (h c hc).2 hu'

/-- Joining components and splitting again gives them back. -/
theorem splitPathComponents_joined {cs : List WString}
    (h : ∀ c ∈ cs, IsField separator c ∧ slash ∉ c) :
    splitPathComponents (joined separator cs) = cs := by
  rw [splitPathComponents_eq, normalizeSeparators_joined h]
  exact spells_joined fun c hc => (h c hc).1

/-! ## Canonical paths -/

/-- Components joined by single separators. -/
def IsCanonical (path : WString) : Prop :=
  ∃ cs : List WString, (∀ c ∈ cs, IsField separator c ∧ slash ∉ c) ∧ path = joined separator cs

/-- A canonical path is written as the resolver would write it. -/
theorem IsCanonical.trim {p : WString} (h : IsCanonical p) : trimLeadingSeparators p = p := by
  obtain ⟨cs, hcs, rfl⟩ := h
  rw [trimLeadingSeparators, normalizeSeparators_joined hcs]
  cases cs with
  | nil => rfl
  | cons c cs =>
    have hc := (hcs c List.mem_cons_self).1
    obtain ⟨u, c, rfl⟩ := List.exists_cons_of_ne_nil hc.ne_nil
    have hu : u ≠ separator := fun hu => hc.free (hu ▸ List.mem_cons_self)
    obtain ⟨t, ht⟩ : ∃ t, joined separator ((u :: c) :: cs) = u :: t := by
      cases cs with
      | nil => exact ⟨c, by simp [joined]⟩
      | cons d cs => exact ⟨_, joined_cons_cons ..⟩
    rw [ht, List.dropWhile_cons_of_neg (by simpa using hu)]

/-- **What the mapper returns is of the source.** -/
theorem mapped_ofSource {sourceUnc path : WString} {identity : PathIdentity}
    (h : mapObservedSourcePath fold sourceUnc path = some identity) :
    (∃ source, parseUncPath fold sourceUnc = some source ∧
      identity.sourceRootId = source.sourceRootId) ∧ IsCanonical identity.relativePath := by
  cases hsource : parseUncPath fold sourceUnc with
  | none =>
    simp only [mapObservedSourcePath, hsource] at h
    cases h
  | some source =>
    obtain ⟨s, sh, fs, hU, rfl⟩ := parseUncPath_eq.1 hsource
    obtain ⟨s', h', cs, hn, -, -, rfl⟩ := (mapObservedSourcePath_eq hU).1 h
    exact ⟨⟨_, rfl, rfl⟩, cs, hn.below, rfl⟩

/-- **Canonical paths have one cache file when they are equal ignoring case.** -/
theorem sameLetters_cacheAbsolute {config : AppConfig} {p q : WString} (hp : IsCanonical p)
    (hq : IsCanonical q) :
    SameLetters fold ((rootedPathResolver config).cacheAbsolute p)
      ((rootedPathResolver config).cacheAbsolute q) ↔ SameLetters fold p q := by
  simp only [rootedPathResolver, joinRootRelative, hp.trim, hq.trim, SameLetters]
  by_cases hpn : p = []
  · by_cases hqn : q = []
    · simp [hpn, hqn]
    · simp [hpn, hqn, eq_comm (a := [])]
  · by_cases hqn : q = []
    · simp [hpn, hqn]
    · simp [hpn, hqn]

/-! ## Resolving -/

/-- The components are equal one by one, ignoring case. -/
def SameComponents (fold : CaseFold) : List WString → List WString → Prop :=
  List.Forall₂ (SameLetters fold)

/-- What mapping `path` and resolving the identity should give. -/
structure RoundTrip (fold : CaseFold) (sourceUnc path : WString) : Prop where
  /-- What is copied from has the components `path` names. -/
  resolved : ∀ i, mapObservedSourcePath fold sourceUnc path = some i →
    ∃ s h cs, Names fold path s h cs ∧
      SameComponents fold (splitPathComponents (joinRootRelative sourceUnc i.relativePath))
        (s :: h :: cs)
  /-- A path that does not begin with the components of `sourceUnc` is not mapped. -/
  foreign : (¬ ∃ s h cs, Names fold path s h cs ∧ ∃ above below, s :: h :: cs = above ++ below ∧
      SameComponents fold (splitPathComponents sourceUnc) above) →
    mapObservedSourcePath fold sourceUnc path = none

/-- A path names one list of components below its share. -/
theorem Names.below_unique {path s h s' h' : WString} {cs cs' : List WString}
    (hn : Names fold path s h cs) (hn' : Names fold path s' h' cs') : cs = cs' := by
  have hi := parse_or_eq.2 ⟨s, h, cs, hn, rfl⟩
  have hi' := parse_or_eq.2 ⟨s', h', cs', hn', rfl⟩
  rw [hi] at hi'
  have hjoined : joined separator cs = joined separator cs' :=
    congrArg PathIdentity.relativePath (Option.some.inj hi')
  rw [← splitPathComponents_joined hn.below, hjoined, splitPathComponents_joined hn'.below]

/-- The components of what is copied for a path that names `cs` below the share. -/
theorem resolved_components {sourceUnc path s h s' h' : WString} {fs cs : List WString}
    (hU : IsUnc sourceUnc (s :: h :: fs)) (hn : Names fold path s' h' cs) :
    splitPathComponents (joinRootRelative sourceUnc (identityOf fold s h cs).relativePath) =
      s :: h :: (fs ++ cs) := by
  rw [splitPathComponents_joinRootRelative, splitPathComponents_eq.2 hU.spells, identityOf,
    splitPathComponents_joined hn.below]
  rfl

/-- **Below a folder of the share the relative path is joined onto the folder again.** -/
theorem not_roundTrip_of_folder {sourceUnc path s h s' h' f : WString} {fs cs : List WString}
    (hU : IsUnc sourceUnc (s :: h :: f :: fs)) (hn : Names fold path s' h' cs)
    (hs : SameLetters fold s' s) (hh : SameLetters fold h' h) : ¬ RoundTrip fold sourceUnc path := by
  intro hrt
  obtain ⟨s'', h'', cs'', hn'', hsame⟩ :=
    hrt.resolved _ ((mapObservedSourcePath_eq hU).2 ⟨s', h', cs, hn, hs, hh, rfl⟩)
  rw [resolved_components hU hn, hn.below_unique hn''] at hsame
  have hlen := hsame.length_eq
  simp at hlen
  omega

/-- For a bare share root every path comes back. -/
theorem roundTrip_of_root {sourceUnc path s h : WString} (hU : IsUnc sourceUnc [s, h]) :
    RoundTrip fold sourceUnc path where
  resolved i hi := by
    obtain ⟨s', h', cs, hn, hs, hh, rfl⟩ := (mapObservedSourcePath_eq hU).1 hi
    refine ⟨s', h', cs, hn, ?_⟩
    rw [resolved_components hU hn]
    exact .cons hs.symm (.cons hh.symm (List.forall₂_same.2 fun _ _ => rfl))
  foreign hno := by
    refine Option.eq_none_iff_forall_ne_some.2 fun i hi => hno ?_
    obtain ⟨s', h', cs, hn, hs, hh, -⟩ := (mapObservedSourcePath_eq hU).1 hi
    refine ⟨s', h', cs, hn, [s', h'], cs, rfl, ?_⟩
    rw [splitPathComponents_eq.2 hU.spells]
    exact .cons hs.symm (.cons hh.symm .nil)

/-- `path` names a file of the share that `sourceUnc` is on. -/
def NamesShareOf (fold : CaseFold) (sourceUnc path : WString) : Prop :=
  ∃ s h fs s' h' cs, splitPathComponents sourceUnc = s :: h :: fs ∧ Names fold path s' h' cs ∧
    SameLetters fold s' s ∧ SameLetters fold h' h

/-- **A path comes back if the configured UNC is a bare share root, or the path names
no file of its share.** -/
theorem roundTrip_iff (fold : CaseFold) (sourceUnc path : WString)
    (hU : (parseUncPath fold sourceUnc).isSome = true) :
    RoundTrip fold sourceUnc path ↔
      (splitPathComponents sourceUnc).length = 2 ∨ ¬ NamesShareOf fold sourceUnc path := by
  obtain ⟨i, hi⟩ := Option.isSome_iff_exists.1 hU
  obtain ⟨s, h, fs, hunc, -⟩ := parseUncPath_eq.1 hi
  have hcs := splitPathComponents_eq.2 hunc.spells
  cases fs with
  | nil => simp [hcs, roundTrip_of_root hunc]
  | cons f fs =>
    have hlen : (splitPathComponents sourceUnc).length ≠ 2 := by simp [hcs]
    simp only [hlen, false_or]
    constructor
    · rintro hrt ⟨t, k, gs, s', h', cs, hcs', hn, hs, hh⟩
      obtain ⟨rfl, hrest⟩ := List.cons.inj (hcs.symm.trans hcs')
      obtain ⟨rfl, -⟩ := List.cons.inj hrest
      exact not_roundTrip_of_folder hunc hn hs hh hrt
    · intro hno
      have hnone : mapObservedSourcePath fold sourceUnc path = none := by
        refine Option.eq_none_iff_forall_ne_some.2 fun j hj => hno ?_
        obtain ⟨s', h', cs, hn, hs, hh, -⟩ := (mapObservedSourcePath_eq hunc).1 hj
        exact ⟨s, h, f :: fs, s', h', cs, hcs, hn, hs, hh⟩
      exact ⟨fun j hj => absurd (hnone.symm.trans hj) (Option.some_ne_none j).symm, fun _ => hnone⟩

/-- A file below the configured root comes back. -/
theorem roundTrip_file :
    RoundTrip asciiLower (wide "\\\\NasBox\\Share") (wide "\\\\nasbox\\share\\a.txt") :=
  (roundTrip_iff asciiLower _ _ (by decide +kernel)).2 (.inl (by decide +kernel))

/-- A file below a configured folder does not: `media` is joined twice. -/
theorem folder_joined_twice :
    ¬ RoundTrip asciiLower (wide "\\\\NasBox\\Share\\media")
      (wide "\\\\NasBox\\Share\\media\\film.mkv") := by
  have hroot : IsUnc (wide "\\\\NasBox\\Share\\media")
      [wide "NasBox", wide "Share", wide "media"] :=
    ⟨by decide, splitPathComponents_eq.1 (by decide +kernel)⟩
  have hfile : IsUnc (wide "\\\\NasBox\\Share\\media\\film.mkv")
      [wide "NasBox", wide "Share", wide "media", wide "film.mkv"] :=
    ⟨by decide, splitPathComponents_eq.1 (by decide +kernel)⟩
  exact not_roundTrip_of_folder hroot (.inl hfile) rfl rfl

end SsdCache
