import SsdCache.Proof.Step

/-!
# Cache files and their records

What a call of the engine does to the cache file of one path, and what a write does to
`cache_present` of one record.

* `file_frame`, `present_frame`: a call that is not about a path leaves both.
* `file_of_caches`, `file_of_removes`, `present_of_claim`: what a call about it says.
-/

namespace SsdCache

open Atomic

variable {V : Type} {sv : Service V} {w w' : World V} {a : Call} {p : WString} {l : Event} {t : Party}

/-- The cache file of `p` exists. -/
def HasCacheFile (sv : Service V) (w : World V) (p : WString) : Prop :=
  sv.platform.HasFile w.volume (sv.pathResolver.cacheAbsolute p)

/-- Every record with `cache_present=1` has its file. -/
def Truthful (sv : Service V) (w : World V) : Prop :=
  ∀ p, w.index.Present p → HasCacheFile sv w p

/-- For every path, `cache_present=1` exactly when its cache file exists. -/
def Agree (sv : Service V) (w : World V) : Prop :=
  ∀ p, w.index.Present p ↔ HasCacheFile sv w p

/-- What a step wrote about the presence of a cache file. -/
def claim (l : Event) : Option (WString × Bool) :=
  match committed l with
  | some (.markCached p _ _ _ _) => some (p, true)
  | some (.markRemoved p) => some (p, false)
  | _ => none

/-- The path of that record. -/
def claimed (l : Event) : Option WString := (claim l).map (·.1)

/-- Calls as the service makes them: a file by its own cache path, `mark_cached` for a
known file, and no row inserted or taken. -/
def Call.Sound (sv : Service V) (w : World V) : Call → Prop
  | .copyAndHash p _ c _ | .removeCachedFile p c => c = sv.pathResolver.cacheAbsolute p
  | .update (.markCached p _ _ _ _) => w.index.status p ≠ none
  | .update (.recordAccess _ _) | .update (.deleteRecord _) => False
  | _ => True

theorem Call.Sound.keepsRows {r : Except String a.Answer} (ha : a.Sound sv w) {q : WString} :
    a.written r ≠ some (.deleteRecord q) := by
  intro hu
  cases Call.eq_of_written hu
  exact ha

/-- Only `mark_cached` puts a record to present. -/
theorem present_of_onStatus {u : Update} {s : Option Bool} (h : u.onStatus p s = some true)
    (hu : ∀ q sz cz hash t, u ≠ .markCached q sz cz hash t) : s = some true := by
  cases u with
  | markCached q sz cz hash t => exact absurd rfl (hu q sz cz hash t)
  | recordAccess event d =>
    simp only [Update.onStatus] at h
    split at h
    · cases s with
      | none => cases h
      | some b => exact h
    · exact h
  | deleteRecord q =>
    simp only [Update.onStatus] at h
    split at h
    · cases h
    · exact h
  | markRemoved q =>
    simp only [Update.onStatus] at h
    split at h
    · cases s <;> cases h
    · exact h
  | upsertPendingJob q due m => exact h
  | removePendingJob q => exact h
  | recordError q m => exact h

/-- A call that is not `mark_cached` puts no record to present. -/
theorem exec_present {r : Except String a.Answer} (hx : exec sv w a r w')
    (ha : ∀ q sz cz hash t, a ≠ .update (.markCached q sz cz hash t))
    (hp : w'.index.Present p) : w.index.Present p := by
  unfold CacheIndex.Present at hp
  rw [exec_status hx p] at hp
  cases hu : a.written r with
  | none => rw [hu] at hp; exact hp
  | some u =>
    rw [hu] at hp
    refine present_of_onStatus hp fun q sz cz hash t heq => ?_
    rw [Call.eq_of_written hu, heq] at ha
    exact ha q sz cz hash t rfl

/-- A write about a record of another path leaves `cache_present`. -/
theorem present_frame {r : Except String a.Answer} (hx : exec sv w a r w') (ha : a.Sound sv w)
    (hclaim : claimed (.act t a r) ≠ some p) : w'.index.Present p ↔ w.index.Present p := by
  unfold CacheIndex.Present
  rw [exec_status hx p]
  cases a with
  | update u =>
    cases r with
    | error e => exact Iff.rfl
    | ok _ =>
      cases u with
      | recordAccess event d => exact ha.elim
      | deleteRecord q => exact ha.elim
      | markCached q s c hash time =>
        have hne : p ≠ q := fun heq => hclaim (congrArg some heq.symm)
        simp [Call.written, Update.onStatus, hne]
      | markRemoved q =>
        have hne : p ≠ q := fun heq => hclaim (congrArg some heq.symm)
        simp [Call.written, Update.onStatus, hne]
      | _ => exact Iff.rfl
  | _ => exact Iff.rfl

/-- What a write about the record of `p` says. -/
theorem present_of_claim {r : Except String a.Answer} {k : Bool} (hx : exec sv w a r w')
    (ha : a.Sound sv w) (hclaim : claim (.act t a r) = some (p, k)) :
    w'.index.Present p ↔ k = true := by
  unfold CacheIndex.Present
  rw [exec_status hx p]
  cases a with
  | update u =>
    cases r with
    | error e => cases hclaim
    | ok _ =>
      cases u with
      | markCached q s c hash time =>
        cases hclaim
        obtain ⟨b, hb⟩ := Option.ne_none_iff_exists'.1 (show w.index.status p ≠ none from ha)
        simp [Call.written, Update.onStatus, hb]
      | markRemoved q =>
        cases hclaim
        simp [Call.written, Update.onStatus]
      | _ => cases hclaim
  | _ => cases hclaim

section Engine

variable (hE : sv.platform.HonoursInterface)
  (hinj : Function.Injective sv.pathResolver.cacheAbsolute)

include hE

/-- A copied or skipped file exists. -/
theorem file_of_caches {r : Except String a.Answer} (hx : exec sv w a r w') (ha : a.Sound sv w)
    (hc : Caches p (.act t a r)) : HasCacheFile sv w' p := by
  cases a with
  | copyAndHash q s c m =>
    cases r with
    | error e => exact absurd hc not_caches_error
    | ok r =>
      obtain ⟨rfl, hcached⟩ := caches_act.1 hc
      obtain ⟨vol, hcopy, rfl⟩ := hx
      cases (show c = _ from ha)
      exact hE.copy_cached hcopy hcached
  | _ => exact hc.elim

/-- A file removed without error does not. -/
theorem file_of_removes {r : Except String a.Answer} (hx : exec sv w a r w') (ha : a.Sound sv w)
    (hr : Removes p (.act t a r)) : ¬ HasCacheFile sv w' p := by
  cases a with
  | removeCachedFile q c =>
    cases r with
    | error e => exact absurd hr not_removes_error
    | ok r =>
      obtain ⟨rfl, hclean⟩ := removes_act.1 hr
      obtain ⟨vol, hrem, rfl⟩ := hx
      cases (show c = _ from ha)
      exact hE.remove_clean hrem hclean
  | _ => exact hr.elim

include hinj

/-- A call that puts no file there or away leaves every file. -/
theorem file_frame {r : Except String a.Answer} (hx : exec sv w a r w')
    (hok : sv.platform.KeepsOnThrow ∨ ¬ Throws (.act t a r)) (ha : a.Sound sv w)
    (hc : ¬ Caches p (.act t a r)) (hr : ¬ Removes p (.act t a r)) :
    HasCacheFile sv w' p ↔ HasCacheFile sv w p := by
  cases a with
  | copyAndHash q s c m =>
    obtain ⟨vol, hcopy, rfl⟩ := hx
    cases r with
    | error e => exact (hok.resolve_right fun h => h trivial).copy_throws hcopy
    | ok r =>
      cases (show c = _ from ha)
      by_cases hq : p = q
      · subst hq
        exact hE.copy_kept hcopy fun hcached => hc (caches_act.2 ⟨rfl, hcached⟩)
      · exact hE.copy_frame hcopy fun heq => hq (hinj heq)
  | removeCachedFile q c =>
    obtain ⟨vol, hrem, rfl⟩ := hx
    cases r with
    | error e => exact (hok.resolve_right fun h => h trivial).remove_throws hrem
    | ok r =>
      cases (show c = _ from ha)
      by_cases hq : p = q
      · subst hq
        exact hE.remove_kept hrem fun hclean => hr (removes_act.2 ⟨rfl, hclean⟩)
      · exact hE.remove_frame hrem fun heq => hq (hinj heq)
  | _ =>
    unfold HasCacheFile
    rw [exec_volume hx id]

end Engine

end SsdCache
