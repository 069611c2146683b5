import SsdCache.Proof.Evictions

/-!
# What a batch does

`run_due_once` without cancellation tries every job of its snapshot, and each job's
bookkeeping moves the rows of its own path only.

* `runJobs_traces`: the calls of the batch and what they leave in the index.
* `Batch.own`: without eviction every job is on its own.
* `Books.settles`: after its bookkeeping no job is due at the time of the batch.
-/

namespace SsdCache

open Atomic Sql

variable {V : Type} {sv : Service V} {w w' : World V} {tr : List Answered} {p q : WString}
variable {ix ix' m : CacheIndex} {now : ℤ}

/-! ## One job -/

/-- One job of a batch: the calls of `make_room_for` before its copy, and the engine's
answers. -/
structure JobTry where
  job : PendingJob
  room : List Answered := []
  result : CopyResult
  /-- The answer to the removal, when the source is missing. -/
  removal : RemoveResult := {}

/-- The calls that put a failed job to its retry time. -/
def retryCalls (now : ℤ) (job : PendingJob) (errorMessage reason : String) : List Answered :=
  [⟨.update (.recordError job.relativePath errorMessage), .ok ()⟩,
    ⟨.update (.upsertPendingJob job.relativePath (retryDue now job) reason), .ok ()⟩,
    ⟨.memory (.push job.relativePath (floorToSeconds (retryDue now job))), .ok ()⟩]

namespace JobTry

/-- The copy. -/
def copy (sv : Service V) (x : JobTry) : Answered :=
  ⟨.copyAndHash x.job.relativePath (sv.pathResolver.sourceAbsolute x.job.relativePath)
    (sv.pathResolver.cacheAbsolute x.job.relativePath) sv.settings.compareHashBeforeOverwrite,
    .ok x.result⟩

/-- The removal of the cache file of a missing source. -/
def remove (sv : Service V) (x : JobTry) : Answered :=
  ⟨.removeCachedFile x.job.relativePath (sv.pathResolver.cacheAbsolute x.job.relativePath),
    .ok x.removal⟩

/-- The calls after the copy. -/
def books (sv : Service V) (now : ℤ) (x : JobTry) : List Answered :=
  match x.result.action with
  | .cancelled => []
  | .sourceMissing =>
    x.remove sv ::
      if x.removal.Clean then [⟨.update (.markRemoved x.job.relativePath), .ok ()⟩]
      else retryCalls now x.job x.removal.errorMessage "remove stale cache"
  | .failed => retryCalls now x.job x.result.errorMessage "retry"
  | .copied | .skippedSameSize | .skippedHashMatch =>
    [⟨.update (.markCached x.job.relativePath x.result.sourceSizeBytes x.result.cachedSizeBytes
        x.result.hashHex x.result.completedAt), .ok ()⟩,
      ⟨.update (.removePendingJob x.job.relativePath), .ok ()⟩]

def calls (sv : Service V) (now : ℤ) (x : JobTry) : List Answered :=
  x.room ++ x.copy sv :: x.books sv now

/-- The job failed, or the cache file of its missing source could not be removed. -/
def Fails (x : JobTry) : Prop :=
  x.result.action = .failed ∨ x.result.action = .sourceMissing ∧ ¬ x.removal.Clean

end JobTry

/-- What the bookkeeping of a job makes of the index. -/
inductive Books (now : ℤ) (x : JobTry) (ix ix' : CacheIndex) : Prop
  | cached : x.result.action.Cached →
      ix' = (ix.markCached x.job.relativePath x.result.sourceSizeBytes x.result.cachedSizeBytes
        x.result.hashHex x.result.completedAt).removePendingJob x.job.relativePath → Books now x ix ix'
  | removed : x.result.action = .sourceMissing → x.removal.Clean →
      ix' = ix.markRemoved x.job.relativePath → Books now x ix ix'
  | failed (errorMessage reason : String) : x.Fails →
      (ix.recordError x.job.relativePath errorMessage).upsertPendingJob x.job.relativePath
        (retryDue now x.job) reason = .ok ix' → Books now x ix ix'

theorem not_cached_of_missing {action : CopyAction} (h : action = .sourceMissing) :
    ¬ action.Cached := by
  rw [h]
  decide

theorem not_fails_of_cached {x : JobTry} (h : x.result.action.Cached) : ¬ x.Fails := by
  rintro (ha | ⟨ha, -⟩)
  · rw [ha] at h
    exact absurd h (by decide)
  · exact not_cached_of_missing ha h

theorem not_fails_of_clean {x : JobTry} (h : x.result.action = .sourceMissing)
    (hclean : x.removal.Clean) : ¬ x.Fails := by
  rintro (ha | ⟨-, hunclean⟩)
  · rw [h] at ha
    cases ha
  · exact hunclean hclean

theorem retryLater_traces {job : PendingJob} {errorMessage reason : String}
    (h : (retryLater now job errorMessage reason : Task Unit).Traces (S := calls) (exec sv) w tr
      (.ok ()) w') :
    (w.index.recordError job.relativePath errorMessage).upsertPendingJob job.relativePath
        (retryDue now job) reason = .ok w'.index ∧
      tr = retryCalls now job errorMessage reason := by
  obtain ⟨_, m, rest, rfl, ⟨ix, herror, rfl⟩, h⟩ := Prog.traces_perform_ok h
  obtain ⟨_, m, rest, rfl, ⟨ix', hretry, rfl⟩, h⟩ := Prog.traces_perform_ok h
  obtain ⟨rfl, hpush⟩ := Prog.traces_perform.1 h
  obtain ⟨-, -, hw⟩ := hpush
  cases herror
  rw [hw]
  exact ⟨hretry, rfl⟩

/-- What `make_room_for` leaves in the index. -/
def Roomed (sv : Service V) (room : List Answered) (ix ix' : CacheIndex) : Prop :=
  (∃ removals : List Removal, ix' = removals.foldl Removal.index ix) ∧
    (¬ sv.Evicts → room = [] ∧ ix' = ix)

theorem makeRoomFor_roomed
    (h : (makeRoomFor sv p).Traces (S := calls) (exec sv) w tr (.ok ()) w') :
    Roomed sv tr w.index w'.index := by
  rcases makeRoomFor_traces w.index.byLastAccess h with ⟨hoff, hindex, rfl⟩ | ⟨hon, answer, hrest⟩
  · exact ⟨⟨[], hindex⟩, fun _ => ⟨rfl, hindex⟩⟩
  · refine ⟨?_, fun hoff => absurd hon hoff⟩
    rcases hrest with ⟨-, hindex, -⟩ | ⟨free, xs, -, -, -, hindex, -⟩
    · exact ⟨[], hindex⟩
    · exact ⟨_, hindex⟩

/-- The jobs that a batch tried, with what they left in the index. -/
inductive Batch (sv : Service V) (now : ℤ) : CacheIndex → List JobTry → CacheIndex → Prop
  | nil {ix : CacheIndex} : Batch sv now ix [] ix
  | cons {x : JobTry} {xs : List JobTry} {ix m m' ix' : CacheIndex} : Roomed sv x.room ix m →
      Books now x m m' → Batch sv now m' xs ix' → Batch sv now ix (x :: xs) ix'

/-- The answer of a copy. -/
def copyOutcome : Answered → Option CopyResult
  | ⟨.copyAndHash _ _ _ _, .ok r⟩ => some r
  | _ => none

/-- No copy was cancelled. -/
def NoCancel (tr : List Answered) : Prop :=
  ∀ x ∈ tr, ∀ r ∈ copyOutcome x, r.action ≠ .cancelled

instance (tr : List Answered) : Decidable (NoCancel tr) :=
  inferInstanceAs (Decidable (∀ x ∈ tr, _))

/-- The outcomes that count. -/
def completed (xs : List JobTry) : ℕ := (xs.filter fun x => x.result.action.Cached).length

theorem completed_cons (x : JobTry) (xs : List JobTry) :
    completed (x :: xs) = (if x.result.action.Cached then 1 else 0) + completed xs := by
  unfold completed
  by_cases hc : x.result.action.Cached
  · rw [List.filter_cons_of_pos (by simpa using hc), if_pos hc, List.length_cons]
    omega
  · rw [List.filter_cons_of_neg (by simpa using hc), if_neg hc, Nat.zero_add]

theorem calls_append {x : JobTry} {books rest : List Answered} (hbooks : x.books sv now = books) :
    x.calls sv now ++ rest = x.room ++ x.copy sv :: (books ++ rest) := by
  rw [JobTry.calls, hbooks, List.append_assoc, List.cons_append]

/-- The bookkeeping of a job, then the rest of the batch. -/
def Booked (sv : Service V) (now : ℤ) (x : JobTry) (rest : Task ℕ) (w : World V)
    (tr : List Answered) (count : ℕ) (w' : World V) : Prop :=
  ∃ u tr', tr = x.books sv now ++ tr' ∧ Books now x w.index u.index ∧
    rest.Traces (S := calls) (exec sv) u tr' (.ok count) w'

variable {x : JobTry} {rest : Task ℕ} {count : ℕ}

/-- A job that is put to its retry time. -/
theorem retry_traces {errorMessage reason : String} (hfails : x.Fails)
    (h : ((retryLater now x.job errorMessage reason).bind fun _ => rest).Traces (S := calls)
      (exec sv) w tr (.ok count) w') :
    ∃ u tr', tr = retryCalls now x.job errorMessage reason ++ tr' ∧ Books now x w.index u.index ∧
      rest.Traces (S := calls) (exec sv) u tr' (.ok count) w' := by
  rcases Prog.traces_bind.1 h with ⟨e, he, -⟩ | ⟨_, u, books, tr', rfl, hretry, hrest⟩
  · cases he
  · obtain ⟨hindex, rfl⟩ := retryLater_traces hretry
    exact ⟨u, tr', rfl, .failed errorMessage reason hfails hindex, hrest⟩

/-- A failed copy. -/
theorem failed_traces (ha : x.result.action = .failed)
    (h : ((retryLater now x.job x.result.errorMessage "retry").bind fun _ => rest).Traces
      (S := calls) (exec sv) w tr (.ok count) w') : Booked sv now x rest w tr count w' := by
  obtain ⟨u, tr', rfl, hstep, hrest⟩ := retry_traces (.inl ha) h
  refine ⟨u, tr', ?_, hstep, hrest⟩
  have hbooks : x.books sv now = retryCalls now x.job x.result.errorMessage "retry" := by
    simp only [JobTry.books, ha]
  rw [hbooks]

/-- A missing source, whose cache file is removed. -/
theorem missing_traces {job : PendingJob} {room : List Answered} {result : CopyResult}
    (ha : result.action = .sourceMissing)
    (h : (Prog.bind (Prog.perform (S := calls) (.removeCachedFile job.relativePath
        (sv.pathResolver.cacheAbsolute job.relativePath))) fun removal : RemoveResult =>
      if removal.Clean then (update (.markRemoved job.relativePath)).bind fun _ => rest
      else (retryLater now job removal.errorMessage "remove stale cache").bind fun _ =>
        rest).Traces (S := calls) (exec sv) w tr (.ok count) w') :
    ∃ removal, Booked sv now ⟨job, room, result, removal⟩ rest w tr count w' := by
  obtain ⟨(removal : RemoveResult), m, tr, rfl, ⟨v, -, rfl⟩, h⟩ := Prog.traces_perform_ok h
  let x : JobTry := ⟨job, room, result, removal⟩
  by_cases hclean : removal.Clean
  · rw [if_pos hclean] at h
    obtain ⟨_, u, tr', rfl, ⟨ix, hmark, hu⟩, h⟩ := Prog.traces_perform_ok h
    cases hmark
    have hbooks : x.books sv now =
        [x.remove sv, ⟨.update (.markRemoved job.relativePath), .ok ()⟩] := by
      simp only [JobTry.books, x, ha, if_pos hclean]
    refine ⟨removal, u, tr', ?_, .removed ha hclean (congrArg World.index hu), h⟩
    rw [hbooks]
    rfl
  · rw [if_neg hclean] at h
    obtain ⟨u, tr', rfl, hstep, hrest⟩ := retry_traces (x := x) (.inr ⟨ha, hclean⟩) h
    have hbooks : x.books sv now = x.remove sv ::
        retryCalls now job removal.errorMessage "remove stale cache" := by
      simp only [JobTry.books, x, ha, if_neg hclean]
    refine ⟨removal, u, tr', ?_, hstep, hrest⟩
    rw [hbooks]
    rfl

/-- A copied or skipped file. -/
theorem cached_traces (hcached : x.result.action.Cached)
    (h : ((update (.markCached x.job.relativePath x.result.sourceSizeBytes
      x.result.cachedSizeBytes x.result.hashHex x.result.completedAt)).bind fun _ =>
        (update (.removePendingJob x.job.relativePath)).bind fun _ => rest).Traces (S := calls)
          (exec sv) w tr (.ok count) w') : Booked sv now x rest w tr count w' := by
  obtain ⟨_, m, tr', rfl, ⟨ix, hmark, rfl⟩, h⟩ := Prog.traces_perform_ok h
  obtain ⟨_, m, tr', rfl, ⟨ix', hdrop, rfl⟩, h⟩ := Prog.traces_perform_ok h
  cases hmark
  cases hdrop
  refine ⟨_, tr', ?_, .cached hcached rfl, h⟩
  unfold JobTry.books
  rcases hcached with hx | hx | hx
  all_goals rw [hx]; rfl

/-- **One job of a batch**, when no copy is cancelled. -/
theorem runJobs_cons_traces {job : PendingJob} {jobs : List PendingJob} {n : ℕ}
    (h : (runJobs sv now (job :: jobs) n).Traces (S := calls) (exec sv) w tr (.ok count) w')
    (hcancel : NoCancel tr) :
    ∃ (x : JobTry) (m : CacheIndex) (u : World V) (tr' : List Answered), x.job = job ∧
      tr = x.calls sv now ++ tr' ∧ Roomed sv x.room w.index m ∧ Books now x m u.index ∧
      (runJobs sv now jobs (n + if x.result.action.Cached then 1 else 0)).Traces (S := calls)
        (exec sv) u tr' (.ok count) w' := by
  rw [runJobs] at h
  rcases Prog.traces_bind.1 h with ⟨e, he, -⟩ | ⟨_, m, room, tr, rfl, hroom, h⟩
  · cases he
  have hroomed := makeRoomFor_roomed hroom
  obtain ⟨(result : CopyResult), m', rest, rfl, ⟨v, -, rfl⟩, h⟩ := Prog.traces_perform_ok h
  have hnot : result.action ≠ .cancelled :=
    hcancel _ (List.mem_append_right _ List.mem_cons_self) result rfl
  suffices hbooks : ∃ removal, Booked sv now ⟨job, room, result, removal⟩
      (runJobs sv now jobs (n + if result.action.Cached then 1 else 0))
      { m with volume := v } rest count w' by
    obtain ⟨removal, u, tr', rfl, hstep, hrest⟩ := hbooks
    let x : JobTry := ⟨job, room, result, removal⟩
    refine ⟨x, m.index, u, tr', rfl, ?_, hroomed, hstep, hrest⟩
    rw [calls_append (x := x) rfl]
    rfl
  cases ha : result.action with
  | cancelled => exact absurd ha hnot
  | sourceMissing =>
    rw [ha] at h
    exact missing_traces ha h
  | failed =>
    rw [ha] at h
    exact ⟨{}, failed_traces ha h⟩
  | copied =>
    rw [ha] at h
    exact ⟨{}, cached_traces (.inl ha) h⟩
  | skippedSameSize =>
    rw [ha] at h
    exact ⟨{}, cached_traces (.inr (.inl ha)) h⟩
  | skippedHashMatch =>
    rw [ha] at h
    exact ⟨{}, cached_traces (.inr (.inr ha)) h⟩

theorem NoCancel.append_right {tr₁ tr₂ : List Answered} (h : NoCancel (tr₁ ++ tr₂)) :
    NoCancel tr₂ := fun x hx => h x (List.mem_append_right _ hx)

/-- **The calls of a batch**, when no copy is cancelled. -/
theorem runJobs_traces {jobs : List PendingJob} {n : ℕ}
    (h : (runJobs sv now jobs n).Traces (S := calls) (exec sv) w tr (.ok count) w')
    (hcancel : NoCancel tr) :
    ∃ xs : List JobTry, xs.map (·.job) = jobs ∧ tr = xs.flatMap (JobTry.calls sv now) ∧
      Batch sv now w.index xs w'.index ∧ count = n + completed xs := by
  induction jobs generalizing w tr n with
  | nil =>
    obtain ⟨rfl, hn, rfl⟩ := h
    cases hn
    exact ⟨[], rfl, rfl, .nil, rfl⟩
  | cons job jobs ih =>
    obtain ⟨x, m, u, tr', hjob, rfl, hroom, hbooks, hrest⟩ := runJobs_cons_traces h hcancel
    obtain ⟨xs, hjobs, rfl, hbatch, hcount⟩ := ih hrest hcancel.append_right
    refine ⟨x :: xs, ?_, ?_, .cons hroom hbooks hbatch, ?_⟩
    · rw [List.map_cons, hjob, hjobs]
    · rw [List.flatMap_cons]
    · rw [completed_cons, hcount]
      omega

/-- **The calls of `run_due_once`**, when no copy is cancelled. -/
theorem runDueOnce_traces
    (h : (runDueOnce sv now).Traces (S := calls) (exec sv) w tr (.ok count) w')
    (hcancel : NoCancel tr) :
    ∃ xs : List JobTry,
      w.index.IsDueJobs w.clock now sv.settings.dueBatchSize (xs.map (·.job)) ∧
      tr = ⟨.query (.dueJobs now sv.settings.dueBatchSize), .ok (xs.map (·.job))⟩ ::
        xs.flatMap (JobTry.calls sv now) ∧
      Batch sv now w.index xs w'.index ∧ count = completed xs := by
  obtain ⟨jobs, m, rest, rfl, ⟨hjobs, rfl⟩, hrest⟩ := Prog.traces_perform_ok h
  obtain ⟨xs, rfl, rfl, hbatch, hcount⟩ :=
    runJobs_traces hrest fun x hx => hcancel x (List.mem_cons_of_mem _ hx)
  exact ⟨xs, hjobs, rfl, hbatch, hcount.trans (Nat.zero_add _)⟩

/-! ## Rows -/

/-- The rows of `p` are as they were. -/
def SameRows (p : WString) (ix ix' : CacheIndex) : Prop :=
  ix'.files.lookup p = ix.files.lookup p ∧ ix'.pendingJobs.lookup p = ix.pendingJobs.lookup p

theorem SameRows.trans (h : SameRows p ix m) (h' : SameRows p m ix') : SameRows p ix ix' :=
  ⟨h'.1.trans h.1, h'.2.trans h.2⟩

theorem SameRows.job_eq (h : SameRows p ix ix') : ix'.job p = ix.job p := h.2

theorem SameRows.status_eq (h : SameRows p ix ix') : ix'.status p = ix.status p :=
  congrArg (Option.map FileRow.cachePresent) h.1

/-- The path a statement is about. -/
def Update.path : Update → WString
  | recordAccess event _ => event.relativePath
  | upsertPendingJob p _ _ | removePendingJob p | deleteRecord p => p
  | markCached p _ _ _ _ | recordError p _ | markRemoved p => p

/-- **A statement leaves the rows of every other path.** -/
theorem Update.sameRows {u : Update} (h : u.apply ix = .ok ix') (hp : p ≠ u.path) :
    SameRows p ix ix' := by
  have hjob := u.job_apply h p
  cases u with
  | recordAccess event d =>
    cases h
    refine ⟨?_, ?_⟩
    · unfold CacheIndex.recordAccess CacheIndex.recordAccessWith
      split
      · rfl
      · exact (lookup_upsert ..).trans (if_neg hp)
    · exact hjob.trans (if_neg fun hx => hp hx.1)
  | upsertPendingJob q due reason =>
    refine ⟨?_, hjob.trans (if_neg fun hx => hp hx.1)⟩
    simp only [Update.apply, CacheIndex.upsertPendingJob] at h
    split at h
    · cases h
      rfl
    · split at h
      · cases h
        rfl
      · cases h
  | removePendingJob q =>
    cases h
    exact ⟨rfl, hjob.trans (if_neg hp)⟩
  | deleteRecord q =>
    cases h
    exact ⟨(lookup_erase_eq ..).trans (if_neg hp), hjob.trans (if_neg hp)⟩
  | markCached q s c hash t =>
    cases h
    exact ⟨(lookup_update ..).trans (if_neg hp), hjob⟩
  | recordError q e =>
    cases h
    exact ⟨(lookup_update ..).trans (if_neg hp), hjob.trans (if_neg hp)⟩
  | markRemoved q =>
    cases h
    exact ⟨(lookup_update ..).trans (if_neg hp), hjob.trans (if_neg hp)⟩

namespace Books

/-- **The books of a job** leave the rows of every other path. -/
theorem sameRows (h : Books now x ix ix') (hp : p ≠ x.job.relativePath) : SameRows p ix ix' := by
  cases h with
  | cached _ hix =>
    subst hix
    have hmark : SameRows p ix (ix.markCached x.job.relativePath x.result.sourceSizeBytes
        x.result.cachedSizeBytes x.result.hashHex x.result.completedAt) :=
      Update.sameRows (u := .markCached x.job.relativePath x.result.sourceSizeBytes
        x.result.cachedSizeBytes x.result.hashHex x.result.completedAt) rfl hp
    exact hmark.trans (Update.sameRows (u := .removePendingJob x.job.relativePath) rfl hp)
  | removed _ _ hix =>
    subst hix
    exact Update.sameRows (u := .markRemoved x.job.relativePath) rfl hp
  | failed message reason _ hix =>
    have herror : SameRows p ix (ix.recordError x.job.relativePath message) :=
      Update.sameRows (u := .recordError x.job.relativePath message) rfl hp
    exact herror.trans
      (Update.sameRows (u := .upsertPendingJob x.job.relativePath (retryDue now x.job) reason) hix hp)

/-- A job that did not fail is gone. -/
theorem job_gone (h : Books now x ix ix') (hx : ¬ x.Fails) :
    ix'.job x.job.relativePath = none := by
  cases h with
  | cached _ hix =>
    rw [hix]
    exact (lookup_erase_eq ..).trans (if_pos rfl)
  | removed _ _ hix =>
    rw [hix]
    exact (lookup_erase_eq ..).trans (if_pos rfl)
  | failed _ _ hfails => exact absurd hfails hx

/-- A copied or skipped file is recorded, and its job is gone. -/
theorem of_cached (h : Books now x ix ix') (hx : x.result.action.Cached)
    (hfile : ix.status x.job.relativePath ≠ none) :
    ix'.job x.job.relativePath = none ∧ ix'.status x.job.relativePath = some true := by
  refine ⟨h.job_gone (not_fails_of_cached hx), ?_⟩
  cases h with
  | cached _ hix =>
    subst hix
    obtain ⟨b, hb⟩ := Option.ne_none_iff_exists'.1 hfile
    have happly : (Update.markCached x.job.relativePath x.result.sourceSizeBytes
        x.result.cachedSizeBytes x.result.hashHex x.result.completedAt).apply ix = .ok _ := rfl
    have hmark := Update.status_apply happly x.job.relativePath
    rw [hb] at hmark
    exact hmark.trans (if_pos rfl)
  | removed ha => exact absurd hx (not_cached_of_missing ha)
  | failed _ _ hfails => exact absurd hfails (not_fails_of_cached hx)

/-- The file of a missing source is taken out. -/
theorem of_removed (h : Books now x ix ix') (hx : x.result.action = .sourceMissing)
    (hclean : x.removal.Clean) (hfile : ix.status x.job.relativePath ≠ none) :
    ix'.job x.job.relativePath = none ∧ ix'.status x.job.relativePath = some false := by
  refine ⟨h.job_gone (not_fails_of_clean hx hclean), ?_⟩
  cases h with
  | cached ha => exact absurd ha (not_cached_of_missing hx)
  | removed _ _ hix =>
    subst hix
    obtain ⟨b, hb⟩ := Option.ne_none_iff_exists'.1 hfile
    have happly : (Update.markRemoved x.job.relativePath).apply ix = .ok _ := rfl
    have hmark := Update.status_apply happly x.job.relativePath
    rw [hb] at hmark
    exact hmark.trans (if_pos rfl)
  | failed _ _ hfails => exact absurd hfails (not_fails_of_clean hx hclean)

/-- The row of a failed job, one try later. -/
theorem of_failed (h : Books now x ix ix') (hx : x.Fails) (hp : x.job.relativePath ≠ [])
    {row : JobRow} (hrow : ix.job x.job.relativePath = some row) :
    ∃ reason, ix'.job x.job.relativePath = some { row with
      dueUtc := formatUtc (retryDue now x.job), reason := reason, retries := row.retries + 1 } := by
  cases h with
  | cached ha => exact absurd hx (not_fails_of_cached ha)
  | removed ha hclean => exact absurd hx (not_fails_of_clean ha hclean)
  | failed message reason _ hix =>
    have happly : (Update.recordError x.job.relativePath message).apply ix = .ok _ := rfl
    have herror := Update.job_apply happly x.job.relativePath
    have hretry := Update.job_apply (u := .upsertPendingJob x.job.relativePath
      (retryDue now x.job) reason) hix x.job.relativePath
    simp only [Update.onJob, if_true, hrow, Option.map_some] at herror
    simp only [Update.onJob, true_and, ne_eq, hp, not_false_eq_true, if_true, herror] at hretry
    exact ⟨reason, hretry⟩

/-- **After its bookkeeping a job is gone** or at its retry time. -/
theorem settles (h : Books now x ix ix') (hp : x.job.relativePath ≠ []) {row : JobRow}
    (hrow : ix'.job x.job.relativePath = some row) :
    row.dueUtc = formatUtc (retryDue now x.job) := by
  have hgone := h.job_gone
  cases h with
  | cached ha =>
    rw [hgone (not_fails_of_cached ha)] at hrow
    cases hrow
  | removed ha hclean =>
    rw [hgone (not_fails_of_clean ha hclean)] at hrow
    cases hrow
  | failed message reason _ hix =>
    have hretry := Update.job_apply (u := .upsertPendingJob x.job.relativePath
      (retryDue now x.job) reason) hix x.job.relativePath
    rw [hrow] at hretry
    simp only [Update.onJob, true_and, ne_eq, hp, not_false_eq_true, if_true, Option.some.injEq]
      at hretry
    rw [hretry]
    unfold CacheIndex.retryJob
    split
    · rfl
    · rfl

end Books

namespace Batch

variable {xs : List JobTry}

/-- Without eviction a batch leaves the rows of every path it does not try. -/
theorem sameRows (hoff : ¬ sv.Evicts) (h : Batch sv now ix xs ix')
    (hp : ∀ x ∈ xs, x.job.relativePath ≠ p) : SameRows p ix ix' := by
  induction h with
  | nil => exact ⟨rfl, rfl⟩
  | cons hroom hbooks _ ih =>
    obtain ⟨hx, hxs⟩ := List.forall_mem_cons.1 hp
    obtain ⟨-, rfl⟩ := hroom.2 hoff
    exact (hbooks.sameRows (Ne.symm hx)).trans (ih hxs)

/-- **Without eviction every job is on its own**: its rows are as they were until its books
are kept, and stay as those leave them. -/
theorem own (hoff : ¬ sv.Evicts) (h : Batch sv now ix xs ix')
    (hnodup : (xs.map (·.job.relativePath)).Nodup) :
    ∀ x ∈ xs, ∃ m m', SameRows x.job.relativePath ix m ∧ Books now x m m' ∧
      SameRows x.job.relativePath m' ix' := by
  induction h with
  | nil => exact fun x hx => absurd hx List.not_mem_nil
  | @cons y ys ix m m' ix' hroom hbooks hrest ih =>
    obtain ⟨-, rfl⟩ := hroom.2 hoff
    rw [List.map_cons, List.nodup_cons] at hnodup
    have hne : ∀ x ∈ ys, x.job.relativePath ≠ y.job.relativePath := fun x hx heq =>
      hnodup.1 (List.mem_map.2 ⟨x, hx, heq⟩)
    intro x hx
    rcases List.mem_cons.1 hx with rfl | hx
    · exact ⟨m, m', ⟨rfl, rfl⟩, hbooks, sameRows hoff hrest hne⟩
    · obtain ⟨u, u', hbefore, hx', hafter⟩ := ih hnodup.2 x hx
      exact ⟨u, u', (hbooks.sameRows (hne x hx)).trans hbefore, hx', hafter⟩

/-- Without eviction `make_room_for` calls nothing. -/
theorem room_nil (hoff : ¬ sv.Evicts) (h : Batch sv now ix xs ix') : ∀ x ∈ xs, x.room = [] := by
  induction h with
  | nil => exact fun x hx => absurd hx List.not_mem_nil
  | cons hroom _ _ ih => exact List.forall_mem_cons.2 ⟨(hroom.2 hoff).1, ih⟩

/-- **A batch leaves no job due that it tried**, and makes no other one due. -/
theorem settles (h : Batch sv now ix xs ix') (hempty : ∀ x ∈ xs, x.job.relativePath ≠ [])
    {row : JobRow} (hrow : ix'.job p = some row) :
    (∃ x ∈ xs, x.job.relativePath = p ∧ row.dueUtc = formatUtc (retryDue now x.job)) ∨
      (∀ x ∈ xs, x.job.relativePath ≠ p) ∧ ix.job p = some row := by
  induction h with
  | nil => exact .inr ⟨fun x hx => absurd hx List.not_mem_nil, hrow⟩
  | @cons y ys ix m m' ix' hroom hbooks _ ih =>
    obtain ⟨hy, hys⟩ := List.forall_mem_cons.1 hempty
    rcases ih hys hrow with ⟨x, hx, hpath, hdue⟩ | ⟨hrest, hm'⟩
    · exact .inl ⟨x, List.mem_cons_of_mem _ hx, hpath, hdue⟩
    by_cases hp : p = y.job.relativePath
    · subst hp
      exact .inl ⟨y, List.mem_cons_self, rfl, hbooks.settles hy hm'⟩
    · -- evictions take job rows, and add none
      have hm : m.job p = some row := (hbooks.sameRows hp).job_eq.symm.trans hm'
      obtain ⟨⟨removals, rfl⟩, -⟩ := hroom
      refine .inr ⟨List.forall_mem_cons.2 ⟨Ne.symm hp, hrest⟩, ?_⟩
      by_cases htook : Took removals p
      · rw [CacheIndex.job, ((removals_rows removals ix p).1 htook).2] at hm
        cases hm
      · exact ((removals_rows removals ix p).2 htook).2.symm.trans hm

end Batch

end SsdCache
