import SsdCache.Spec.Calls

/-!
# What the index statements do to one path

The rows of one path form a small state machine of their own: `CacheIndex.job` and
`CacheIndex.status` read them, `Update.onJob` and `Update.onStatus` move them, and no
statement touches the rows of another path.

* `job_apply`, `status_apply`: every statement moves each path's rows so.
* `status_of_job`: a pending job has a file row (the foreign key).
-/

namespace SsdCache

open Sql

namespace CacheIndex

/-- The pending job row of a path. -/
def job (ix : CacheIndex) (p : WString) : Option JobRow := ix.pendingJobs.lookup p

/-- `cache_present` of a path's file row. -/
def status (ix : CacheIndex) (p : WString) : Option Bool :=
  (ix.files.lookup p).map (·.cachePresent)

/-- A record says that the cache file of `p` is there. -/
def Present (ix : CacheIndex) (p : WString) : Prop := ix.status p = some true

instance (ix : CacheIndex) (p : WString) : Decidable (ix.Present p) :=
  inferInstanceAs (Decidable (_ = _))

theorem mem_pendingJobs {ix : CacheIndex} {p : WString} :
    p ∈ ix.pendingJobs ↔ ix.job p ≠ none := by
  rw [mem_iff_lookup, job, Option.ne_none_iff_exists']

theorem mem_files {ix : CacheIndex} {p : WString} : p ∈ ix.files ↔ ix.status p ≠ none := by
  rw [mem_iff_lookup, ← Option.ne_none_iff_exists', status, Ne, Ne, Option.map_eq_none_iff]

/-- A pending job has a file row. -/
theorem status_of_job {ix : CacheIndex} {p : WString} (h : ix.job p ≠ none) :
    ix.status p ≠ none :=
  mem_files.1 (ix.fk p (mem_pendingJobs.2 h))

theorem status_updateFile (ix : CacheIndex) (p q : WString) (f : FileRow → FileRow) :
    (ix.updateFile p f).status q =
      if q = p then (ix.files.lookup q).map fun row => (f row).cachePresent else ix.status q := by
  unfold status updateFile
  rw [lookup_update]
  split
  · rw [Option.map_map]; rfl
  · rfl

/-- An update of other columns keeps `cache_present`. -/
theorem status_updateFile_keep (ix : CacheIndex) (p q : WString) {f : FileRow → FileRow}
    (hf : ∀ row, (f row).cachePresent = row.cachePresent) :
    (ix.updateFile p f).status q = ix.status q := by
  rw [status_updateFile]
  split
  · simp only [hf]; rfl
  · rfl

@[simp] theorem job_updateFile (ix : CacheIndex) (p q : WString) (f : FileRow → FileRow) :
    (ix.updateFile p f).job q = ix.job q := rfl

end CacheIndex

namespace Update

/-- What a statement does to the job row of `p`. -/
def onJob (p : WString) : Update → Option JobRow → Option JobRow
  | recordAccess event copyDelay, row =>
    if p = event.relativePath ∧ p ≠ [] ∧ shouldScheduleCopy event.kind = true then
      some (CacheIndex.accessJob formatUtc event copyDelay row)
    else row
  | upsertPendingJob q dueUtc reason, row =>
    if p = q ∧ p ≠ [] then some (CacheIndex.retryJob dueUtc reason row) else row
  | removePendingJob q, row | deleteRecord q, row | markRemoved q, row =>
    if p = q then none else row
  | recordError q _, row =>
    if p = q then row.map fun row => { row with retries := row.retries + 1 } else row
  | markCached _ _ _ _ _, row => row

/-- What a statement does to `cache_present` of `p`. -/
def onStatus (p : WString) : Update → Option Bool → Option Bool
  | recordAccess event _, s => if p = event.relativePath ∧ p ≠ [] then some (s.getD false) else s
  | deleteRecord q, s => if p = q then none else s
  | markCached q _ _ _ _, s => if p = q then s.map fun _ => true else s
  | markRemoved q, s => if p = q then s.map fun _ => false else s
  | upsertPendingJob _ _ _, s | removePendingJob _, s | recordError _ _, s => s

variable {ix ix' : CacheIndex} {u : Update}

/-- **A statement moves the job row of each path on its own.** -/
theorem job_apply (h : u.apply ix = .ok ix') (p : WString) : ix'.job p = u.onJob p (ix.job p) := by
  cases u with
  | recordAccess event d =>
    cases h
    simp only [CacheIndex.recordAccess, CacheIndex.recordAccessWith, onJob]
    by_cases he : event.relativePath = []
    · -- `record_access` returns at once
      have hp : ¬ (p = event.relativePath ∧ p ≠ [] ∧ shouldScheduleCopy event.kind = true) := by
        rintro ⟨rfl, hne, -⟩
        exact hne he
      rw [if_pos he, if_neg hp]
    · rw [if_neg he]
      by_cases hs : shouldScheduleCopy event.kind = true
      · simp only [CacheIndex.job, hs, if_true, lookup_upsert]
        by_cases hp : p = event.relativePath
        · subst hp; simp [he]
        · simp [hp]
      · simp [CacheIndex.job, hs]
  | upsertPendingJob q due reason =>
    simp only [apply, CacheIndex.upsertPendingJob, onJob] at h ⊢
    split at h
    · rename_i hq
      cases h
      rw [if_neg (by rintro ⟨rfl, hne⟩; exact hne hq)]
    · rename_i hq
      split at h
      · cases h
        simp only [CacheIndex.job, lookup_upsert]
        by_cases hp : p = q
        · subst hp; simp [hq]
        · simp [hp]
      · -- without a file row the foreign key makes it throw
        cases h
  | removePendingJob q => cases h; exact lookup_erase_eq q p ix.pendingJobs
  | deleteRecord q => cases h; exact lookup_erase_eq q p ix.pendingJobs
  | markRemoved q => cases h; exact lookup_erase_eq q p ix.pendingJobs
  | recordError q e => cases h; exact lookup_update q p _ ix.pendingJobs
  | markCached q s c hash t => cases h; rfl

/-- **A statement moves the status of each path on its own.** -/
theorem status_apply (h : u.apply ix = .ok ix') (p : WString) :
    ix'.status p = u.onStatus p (ix.status p) := by
  cases u with
  | recordAccess event d =>
    cases h
    simp only [CacheIndex.recordAccess, CacheIndex.recordAccessWith, onStatus]
    by_cases he : event.relativePath = []
    · rw [if_pos he, if_neg (by rintro ⟨rfl, hne⟩; exact hne he)]
    · rw [if_neg he]
      simp only [CacheIndex.status, lookup_upsert]
      by_cases hp : p = event.relativePath
      · subst hp
        cases hrow : ix.files.lookup event.relativePath <;> simp [he, CacheIndex.accessFile]
      · simp [hp]
  | upsertPendingJob q due reason =>
    simp only [apply, CacheIndex.upsertPendingJob] at h
    split at h
    · cases h; rfl
    · split at h
      · cases h; rfl
      · cases h
  | removePendingJob q => cases h; rfl
  | deleteRecord q =>
    cases h
    simp only [CacheIndex.status, CacheIndex.deleteRecord, lookup_erase_eq, onStatus]
    split <;> rfl
  | markRemoved q =>
    cases h
    simp only [CacheIndex.markRemoved, CacheIndex.status_updateFile, onStatus]
    split
    · simp [CacheIndex.status, CacheIndex.removePendingJob, Function.comp_def]
    · rfl
  | recordError q e => cases h; exact ix.status_updateFile_keep q p fun _ => rfl
  | markCached q s c hash t =>
    cases h
    simp only [CacheIndex.markCached, CacheIndex.status_updateFile, onStatus]
    split
    · simp [CacheIndex.status, Function.comp_def]
    · rfl

/-- A statement that throws leaves every job row. -/
theorem job_fails (h : u.Fails ix ix') (p : WString) : ix'.job p = ix.job p := by
  cases u with
  | recordError q e =>
    rcases h with rfl | rfl
    · rfl
    · exact ix.job_updateFile q p _
  | _ => cases h; rfl

/-- A statement that throws leaves every status. -/
theorem status_fails (h : u.Fails ix ix') (p : WString) : ix'.status p = ix.status p := by
  cases u with
  | recordError q e =>
    rcases h with rfl | rfl
    · rfl
    · exact ix.status_updateFile_keep q p fun _ => rfl
  | _ => cases h; rfl

end Update

end SsdCache
