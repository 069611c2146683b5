import SsdCache.Proof.PathRoundTrip
import SsdCache.Proof.Truth
import SsdCache.Spec.Config

/-!
# Records of one cache file

The cache volume compares names ignoring case, the index byte by byte, and the mapper
lowers the root of a path only.

* `known_of_run`: the index has records for the recorded paths.
* `oneRecord_iff`: **no two records share a cache file if and only if no file was recorded
  in two spellings**.
-/

namespace SsdCache

open Atomic Text

variable {V : Type} {fold : CaseFold} {sv : Service V} {w : World V} {h : History V} {c : State V}

/-! ## Cache files of mapped paths -/

/-- The path of an event that `map_observed_source_path` maps. -/
def MappedPath (fold : CaseFold) (sourceUnc p : WString) : Prop :=
  ∃ observed i, mapObservedSourcePath fold sourceUnc observed = some i ∧ i.relativePath = p

theorem MappedPath.isCanonical {sourceUnc p : WString} (h : MappedPath fold sourceUnc p) :
    IsCanonical p := by
  obtain ⟨observed, i, hi, rfl⟩ := h
  exact (mapped_ofSource hi).2

/-! ## Records -/

/-- The paths of the accesses recorded. -/
def recordedPaths (h : History V) : List WString := h.filterMap fun x => eventPath x.2

theorem recordedPaths_cons (x : World V × Event) (h : History V) :
    recordedPaths (x :: h) = (eventPath x.2).toList ++ recordedPaths h := by
  rw [recordedPaths, List.filterMap_cons]
  cases eventPath x.2 <;> rfl

/-- Every event recorded was mapped. -/
def EventsMapped (fold : CaseFold) (sourceUnc : WString) : Condition V := fun _ _ l =>
  ∀ p, eventPath l = some p → MappedPath fold sourceUnc p

theorem eventsMapped_iff {sourceUnc : WString} : Meets (EventsMapped fold sourceUnc) h ↔
    ∀ p ∈ recordedPaths h, MappedPath fold sourceUnc p := by
  induction h with
  | nil => exact iff_of_true trivial fun _ hp => absurd hp List.not_mem_nil
  | cons x h ih =>
    rw [recordedPaths_cons, List.forall_mem_append, ← ih]
    refine and_congr_left' ?_
    simp only [EventsMapped, Option.mem_toList]

/-- No two records have one cache file. -/
def OneRecord (fold : CaseFold) (sv : Service V) (w : World V) : Prop :=
  ∀ p q, w.index.status p ≠ none → w.index.status q ≠ none →
    SameLetters fold (sv.pathResolver.cacheAbsolute p) (sv.pathResolver.cacheAbsolute q) → p = q

/-- The record of `p` moves with the index writes committed. -/
theorem step_status {c' : State V} {l : Event} (hs : Step (system sv concurrent) c l c')
    (p : WString) : c'.world.index.status p =
      (committed l).elim (c.world.index.status p) fun u => u.onStatus p (c.world.index.status p) := by
  cases hs with
  | call hd hm => rfl
  | act hk hx => exact exec_status hx p
  | env he => obtain ⟨clock, -, hw⟩ := he; rw [hw]; rfl

/-- A record appears when its path is recorded, and only `delete_record` takes it. -/
theorem step_known {c' : State V} {l : Event} (hs : Step (system sv concurrent) c l c')
    (hl : ∀ q, committed l ≠ some (.deleteRecord q)) (p : WString) :
    c'.world.index.status p ≠ none ↔
      c.world.index.status p ≠ none ∨ (eventPath l = some p ∧ p ≠ []) := by
  rw [step_status hs]
  unfold eventPath
  cases hu : committed l with
  | none => simp
  | some u =>
    cases u with
    | recordAccess event d =>
      simp only [Option.elim_some, Update.onStatus]
      by_cases hp : p = event.relativePath ∧ p ≠ []
      · rw [if_pos hp]
        exact iff_of_true (Option.some_ne_none _) (.inr ⟨congrArg some hp.1.symm, hp.2⟩)
      · rw [if_neg hp]
        refine ⟨.inl, fun h => h.elim id fun h => ?_⟩
        exact absurd ⟨(Option.some.inj h.1).symm, h.2⟩ hp
    | deleteRecord q => exact absurd hu (hl q)
    | markCached q sz cz hash t =>
      by_cases hp : p = q <;> simp [Update.onStatus, hp]
    | markRemoved q =>
      by_cases hp : p = q <;> simp [Update.onStatus, hp]
    | upsertPendingJob q due m => simp [Update.onStatus]
    | removePendingJob q => simp [Update.onStatus]
    | recordError q m => simp [Update.onStatus]

/-- **The index has records for the recorded paths.** -/
theorem known_of_run (h0 : ∀ p, w.index.status p = none)
    (hrun : Run (system sv concurrent) (.idle w) h c) (p : WString) :
    c.world.index.status p ≠ none ↔ p ∈ recordedPaths h ∧ p ≠ [] := by
  have hreturning : Meets (Returning False) h := meets_of_forall (fun _ _ _ => False.elim) h
  have hkept := callsKept_of_run hrun hreturning
  refine hrun.invariant
    (I := fun h c => c.world.index.status p ≠ none ↔ p ∈ recordedPaths h ∧ p ≠ []) ?_ ?_ hkept
  · simp [Config.idle, h0, recordedPaths]
  · intro h c l c' hI hk hs
    have hkeeps : ∀ q, committed l ≠ some (.deleteRecord q) := by
      intro q hq
      cases l with
      | act t a r =>
        rcases hk t a r rfl with ⟨-, ha⟩ | ⟨-, ha⟩
        · exact ha.sound.keepsRows hq
        · exact ha.keepsRows hq
      | call t o => cases hq
      | env => cases hq
    rw [step_known hs hkeeps, hI, recordedPaths_cons, List.mem_append, Option.mem_toList]
    tauto

/-- **No two records share a cache file if and only if no file was recorded in two
spellings.** -/
theorem oneRecord_iff (fold : CaseFold) (platform : Platform V) (config : AppConfig)
    (h0 : ∀ p, w.index.status p = none)
    (hrun : Run (system (hostService platform config) concurrent) (.idle w) h c)
    (hm : Meets (EventsMapped fold config.sourceUnc) h) :
    OneRecord fold (hostService platform config) c.world ↔
      ∀ p q, p ∈ recordedPaths h → q ∈ recordedPaths h → SameLetters fold p q → p = q := by
  have hmapped := eventsMapped_iff.1 hm
  have hknown := known_of_run h0 hrun
  constructor
  · intro hone p q hp hq hpq
    by_cases hpn : p = []
    · subst hpn
      exact (List.length_eq_zero_iff.1 (hpq.length_eq.symm)).symm
    · have hqn : q ≠ [] := by
        rintro rfl
        exact hpn (List.length_eq_zero_iff.1 hpq.length_eq)
      exact hone p q ((hknown p).2 ⟨hp, hpn⟩) ((hknown q).2 ⟨hq, hqn⟩)
        ((sameLetters_cacheAbsolute (hmapped p hp).isCanonical (hmapped q hq).isCanonical).2 hpq)
  · intro hsame p q hp hq hpq
    have hp' := ((hknown p).1 hp).1
    have hq' := ((hknown q).1 hq).1
    exact hsame p q hp' hq' ((sameLetters_cacheAbsolute (hmapped p hp').isCanonical (hmapped q hq').isCanonical).1 hpq)

/-- The share of the examples. -/
def nasShare : AppConfig := { sourceUnc := wide "\\\\NasBox\\Share" }

/-- Two events of files of the share. -/
def twoEvents (p q : WString) : List (Move Party Operation ℤ) :=
  .call .events (.recordEvent { relativePath := p, observedAt := 0 }) :: steps .events 3 ++
  .call .events (.recordEvent { relativePath := q, observedAt := 0 }) :: steps .events 3

theorem exists_hostRun (ms : List (Move Party Operation ℤ))
    (p : History Disk × State Disk → Prop) [DecidablePred p]
    (hp : ((player (hostService Disk.platform nasShare) rfl concurrent).play ms
      ([], .idle { volume := {}, clock := 0 })).any (fun x => decide (p x)) = true) :
    ∃ h c, Run (system (hostService Disk.platform nasShare) concurrent)
      (.idle { volume := {}, clock := 0 }) h c ∧ p (h, c) :=
  (player _ rfl concurrent).exists_run ms p hp

theorem mapped_lower : MappedPath asciiLower nasShare.sourceUnc (wide "a.txt") :=
  ⟨wide "\\\\nasbox\\share\\a.txt", ⟨wide "\\\\nasbox\\share", wide "a.txt"⟩, by decide +kernel, rfl⟩

theorem mapped_upper : MappedPath asciiLower nasShare.sourceUnc (wide "A.TXT") :=
  ⟨wide "\\\\NASBOX\\SHARE\\A.TXT", ⟨wide "\\\\nasbox\\share", wide "A.TXT"⟩, by decide +kernel, rfl⟩

/-- One file, seen twice in one spelling. -/
theorem oneRecord_one_spelling :
    ∃ h c, Run (system (hostService Disk.platform nasShare) concurrent)
      (.idle { volume := {}, clock := 0 }) h c ∧ recordedPaths h = [wide "a.txt", wide "a.txt"] ∧
      OneRecord asciiLower (hostService Disk.platform nasShare) c.world := by
  obtain ⟨h, c, hrun, hpaths⟩ := exists_hostRun (twoEvents (wide "a.txt") (wide "a.txt"))
    (fun x => recordedPaths x.1 = [wide "a.txt", wide "a.txt"]) (by decide +kernel)
  refine ⟨h, c, hrun, hpaths, (oneRecord_iff asciiLower _ _ (fun _ => rfl) hrun ?_).2 ?_⟩
  · rw [eventsMapped_iff, hpaths]
    simpa using mapped_lower
  · rw [hpaths]
    simp

/-- The same file in two spellings has two records. -/
theorem two_records :
    ∃ h c, Run (system (hostService Disk.platform nasShare) concurrent)
      (.idle { volume := {}, clock := 0 }) h c ∧
      Meets (EventsMapped asciiLower nasShare.sourceUnc) h ∧
      ¬ OneRecord asciiLower (hostService Disk.platform nasShare) c.world := by
  obtain ⟨h, c, hrun, hpaths, hlower, hupper⟩ :=
    exists_hostRun (twoEvents (wide "a.txt") (wide "A.TXT"))
    (fun x => recordedPaths x.1 = [wide "A.TXT", wide "a.txt"] ∧
      x.2.world.index.status (wide "a.txt") ≠ none ∧ x.2.world.index.status (wide "A.TXT") ≠ none)
    (by decide +kernel)
  refine ⟨h, c, hrun, ?_, fun hone => ?_⟩
  · rw [eventsMapped_iff, hpaths]
    simpa using And.intro mapped_upper mapped_lower
  · have heq := hone _ _ hlower hupper
      ((sameLetters_cacheAbsolute mapped_lower.isCanonical mapped_upper.isCanonical).2 (by decide))
    exact absurd heq (by decide)

end SsdCache
