import SsdCache.Proof.BatchStep
import SsdCache.Proof.Time

/-!
# Batches drain what is due

A batch of size `b` tries the `b` earliest due jobs, and every job it tries is gone or at a
later time afterwards. So `⌈n / b⌉` batches leave none of `n` due jobs.

* `batchDone_of_batch`: what a batch without eviction leaves of every row.
* `batches_settle`: the draining, also with eviction.
* `batches_drain`: both, for jobs with a path and a due time from year 0 on.
* `batches_undrained`: a job with the empty path stays due, and before year 0 the text
  order is not that of time.
-/

namespace SsdCache

open Atomic Sql

variable {V : Type} {sv : Service V} {w w' : World V} {tr : List Answered} {p : WString}
variable {ix ix' : CacheIndex} {now : ℤ} {due : WString → ℤ} {xs : List JobTry}

/-! ## Times -/

/-- The first second of year 0, and of year 9999. -/
def year0 : ℤ := -62167219200

def year9999 : ℤ := 253370764800

/-- Every job is due at the whole second `due` of its path, from year 0 to year 9998. -/
def CacheIndex.DueSeconds (ix : CacheIndex) (due : WString → ℤ) : Prop :=
  ∀ p row, ix.job p = some row →
    row.dueUtc = formatUtc (due p * ticksPerSecond) ∧ year0 ≤ due p ∧ due p < year9999

theorem castSeconds_mul (s : ℤ) : castSeconds (s * ticksPerSecond) = s :=
  Int.mul_tdiv_cancel _ (by decide)

theorem castSeconds_add {t : ℤ} {s : ℤ} (ht : 0 ≤ t) (hs : 0 ≤ s) :
    castSeconds (t + s * ticksPerSecond) = castSeconds t + s := by
  rw [castSeconds_eq ht, castSeconds_eq (by unfold ticksPerSecond; omega)]
  unfold ticksPerSecond
  omega

/-- A job's text against the time of a batch. -/
theorem formatUtc_le_now {s : ℤ} (hs : year0 ≤ s) (hs' : s < 253402300800) (hnow : InRange now) :
    formatUtc (s * ticksPerSecond) ≤ formatUtc now ↔ s ≤ castSeconds now := by
  have bnow := castSeconds_bounds hnow
  rw [format_le_cast, castSeconds_mul]
  · rw [castSeconds_mul]
    exact hs
  · rw [castSeconds_mul]
    exact hs'
  · omega
  · exact bnow.2

/-- Between 1970 and year 9998. -/
def BeforeYear9999 (now : ℤ) : Prop := 0 ≤ now ∧ now < year9999 * ticksPerSecond

instance (now : ℤ) : Decidable (BeforeYear9999 now) := inferInstanceAs (Decidable (_ ∧ _))

theorem BeforeYear9999.inRange (h : BeforeYear9999 now) : InRange now := by
  obtain ⟨h0, h1⟩ := h
  unfold year9999 ticksPerSecond at h1
  unfold InRange year10000 ticksPerSecond
  omega

theorem BeforeYear9999.castSeconds_lt (h : BeforeYear9999 now) : castSeconds now < year9999 := by
  obtain ⟨h0, h1⟩ := h
  rw [castSeconds_eq h0]
  unfold ticksPerSecond at *
  omega

theorem retrySeconds_bounds (retries : ℕ) : 30 ≤ retrySeconds retries ∧ retrySeconds retries ≤ 300 := by
  unfold retrySeconds
  omega

/-- The retry time of a job, as the index has it. -/
theorem formatUtc_retryDue (h : BeforeYear9999 now) (job : PendingJob) :
    formatUtc (retryDue now job) =
      formatUtc ((castSeconds now + retrySeconds job.retries) * ticksPerSecond) := by
  obtain ⟨h0, h1⟩ := h
  obtain ⟨hlo, hhi⟩ := retrySeconds_bounds job.retries
  have hrange : InRange (now + retrySeconds job.retries * ticksPerSecond) := by
    unfold year9999 ticksPerSecond at h1
    unfold InRange year10000 ticksPerSecond
    omega
  unfold retryDue
  rw [addSeconds_eq hrange, ← formatUtc_floor (now + _), floorToSeconds, castSeconds_add h0 (by omega)]

/-! ## The snapshot -/

/-- The number of jobs that are due. -/
def CacheIndex.dueRows (ix : CacheIndex) (due : WString → ℤ) (now : ℤ) : ℕ :=
  (rows ix.pendingJobs).countP fun row => due row.1 ≤ castSeconds now

theorem IsDueJobs.earliest {clock limit : ℤ} {jobs : List PendingJob} (hdue : ix.DueSeconds due)
    (hnow : InRange now) (h : ix.IsDueJobs clock now limit jobs) :
    ∃ l, IsSelect (fun row => due row.1 ≤ castSeconds now) (fun row => due row.1) limit
      ix.pendingJobs l ∧ jobs = l.map (CacheIndex.readPendingJob clock) := by
  obtain ⟨l, hl, hjobs⟩ := h
  refine ⟨l, (isSelect_congr ?_ ?_).1 hl, hjobs⟩
  · rintro ⟨p, row⟩ hrow
    obtain ⟨htext, h0, h1⟩ := hdue p row (mem_rows.1 hrow)
    rw [decide_eq_decide, htext, formatUtc_le_now h0 (by unfold year9999 at h1; omega) hnow]
  · rintro ⟨p, row⟩ hrow ⟨q, row'⟩ hrow'
    obtain ⟨htext, h0, h1⟩ := hdue p row (mem_rows.1 hrow)
    obtain ⟨htext', h0', h1'⟩ := hdue q row' (mem_rows.1 hrow')
    unfold year0 at h0 h0'
    unfold year9999 at h1 h1'
    rw [htext, htext', format_le_cast, castSeconds_mul, castSeconds_mul]
    all_goals rw [castSeconds_mul]; omega

/-- The paths of a snapshot are those of its rows. -/
theorem paths_of_read {clock : ℤ} {l : List (WString × JobRow)}
    (h : xs.map (·.job) = l.map (CacheIndex.readPendingJob clock)) :
    xs.map (·.job.relativePath) = l.map Prod.fst := by
  have hmap := congrArg (List.map (·.relativePath)) h
  rw [List.map_map, List.map_map] at hmap
  exact hmap

/-! ## One batch -/

/-- What a batch without eviction does. -/
structure BatchDone (sv : Service V) (now : ℤ) (due : WString → ℤ) (ix : CacheIndex)
    (xs : List JobTry) (ix' : CacheIndex) (count : ℕ) : Prop where
  /-- The jobs tried are the earliest that are due, in the order of their due times. -/
  earliest : ∃ l, IsSelect (fun row => due row.1 ≤ castSeconds now) (fun row => due row.1)
    sv.settings.dueBatchSize ix.pendingJobs l ∧ xs.map (·.job.relativePath) = l.map Prod.fst
  size : xs.length = min sv.settings.dueBatchSize.toNat (ix.dueRows due now)
  once : (xs.map (·.job.relativePath)).Nodup
  cached : ∀ x ∈ xs, x.result.action.Cached →
    ix'.job x.job.relativePath = none ∧ ix'.status x.job.relativePath = some true
  removed : ∀ x ∈ xs, x.result.action = .sourceMissing → x.removal.Clean →
    ix'.job x.job.relativePath = none ∧ ix'.status x.job.relativePath = some false
  failed : ∀ x ∈ xs, x.Fails → ∃ row reason, ix.job x.job.relativePath = some row ∧
    ix'.job x.job.relativePath = some { row with
      dueUtc := formatUtc
        (floorToSeconds now + min 300 (30 * ((row.retries : ℤ) + 1)) * ticksPerSecond)
      reason := reason
      retries := row.retries + 1 }
  kept : ∀ q, (∀ x ∈ xs, x.job.relativePath ≠ q) → SameRows q ix ix'
  count : count = completed xs

/-- **A batch without eviction**, for jobs with a path. -/
theorem batchDone_of_batch {count : ℕ} {clock : ℤ} (hdue : ix.DueSeconds due)
    (hpath : ix.job [] = none) (hnow : BeforeYear9999 now) (hlimit : 1 ≤ sv.settings.dueBatchSize)
    (hoff : ¬ sv.Evicts)
    (hjobs : ix.IsDueJobs clock now sv.settings.dueBatchSize (xs.map (·.job)))
    (hbatch : Batch sv now ix xs ix') (hcount : count = completed xs) :
    BatchDone sv now due ix xs ix' count := by
  obtain ⟨l, hl, hread⟩ := IsDueJobs.earliest hdue hnow.inRange hjobs
  have hpaths := paths_of_read hread
  have hnodup : (xs.map (·.job.relativePath)).Nodup := hpaths ▸ hl.nodup
  -- the snapshot of a job is its row
  have hrow : ∀ x ∈ xs, ∃ row, ix.job x.job.relativePath = some row ∧
      x.job.retries = row.retries := by
    intro x hx
    have hmem : x.job ∈ l.map (CacheIndex.readPendingJob clock) := hread ▸ List.mem_map_of_mem hx
    obtain ⟨⟨p, row⟩, hm, hjob⟩ := List.mem_map.1 hmem
    rw [← hjob]
    exact ⟨row, (hl.mem hm).1, rfl⟩
  have hfile : ∀ x ∈ xs, ix.status x.job.relativePath ≠ none := by
    intro x hx
    obtain ⟨row, hjob, -⟩ := hrow x hx
    exact CacheIndex.status_of_job (by rw [hjob]; exact Option.some_ne_none row)
  have hown := hbatch.own hoff hnodup
  refine ⟨⟨l, hl, hpaths⟩, ?_, hnodup, ?_, ?_, ?_, fun q hq => hbatch.sameRows hoff hq, hcount⟩
  · have hlength := congrArg List.length hpaths
    rw [List.length_map, List.length_map] at hlength
    rw [hlength]
    exact hl.length_eq_min (by omega)
  · intro x hx hcached
    obtain ⟨m, m', hbefore, hbooks, hafter⟩ := hown x hx
    have hrecorded : m.status x.job.relativePath ≠ none := by
      rw [hbefore.status_eq]
      exact hfile x hx
    obtain ⟨hjob, hpresent⟩ := hbooks.of_cached hcached hrecorded
    exact ⟨hafter.job_eq.trans hjob, hafter.status_eq.trans hpresent⟩
  · intro x hx haction hclean
    obtain ⟨m, m', hbefore, hbooks, hafter⟩ := hown x hx
    have hrecorded : m.status x.job.relativePath ≠ none := by
      rw [hbefore.status_eq]
      exact hfile x hx
    obtain ⟨hjob, hpresent⟩ := hbooks.of_removed haction hclean hrecorded
    exact ⟨hafter.job_eq.trans hjob, hafter.status_eq.trans hpresent⟩
  · intro x hx hfails
    obtain ⟨m, m', hbefore, hbooks, hafter⟩ := hown x hx
    obtain ⟨row, hjob, hretries⟩ := hrow x hx
    have hne : x.job.relativePath ≠ [] := by
      intro heq
      rw [heq, hpath] at hjob
      cases hjob
    obtain ⟨reason, hnew⟩ := hbooks.of_failed hfails hne (hbefore.job_eq.trans hjob)
    refine ⟨row, reason, hjob, ?_⟩
    rw [formatUtc_retryDue hnow, hretries, add_mul] at hnew
    exact hafter.job_eq.trans hnew

/-! ## Successive batches -/

/-- `k` successive calls of `run_due_once(now)` that return, none of them cancelled. Between
two calls anything but the index may change. -/
inductive Batches (sv : Service V) (now : ℤ) : ℕ → CacheIndex → CacheIndex → Prop
  | none {ix : CacheIndex} : Batches sv now 0 ix ix
  | call {k count : ℕ} {w w' : World V} {tr : List Answered} {ix' : CacheIndex} :
      (runDueOnce sv now).Traces (S := calls) (exec sv) w tr (.ok count) w' → NoCancel tr →
      Batches sv now k w'.index ix' → Batches sv now (k + 1) w.index ix'

/-- Every job is at a whole second from year 0 to year 9999. -/
def CacheIndex.Dated (ix : CacheIndex) : Prop :=
  ∀ p row, ix.job p = some row → ∃ s, row.dueUtc = formatUtc (s * ticksPerSecond) ∧
    year0 ≤ s ∧ s < 253402300800

/-- The jobs that are due, by their text. -/
def CacheIndex.duePaths (ix : CacheIndex) (now : ℤ) : List WString :=
  ((rows ix.pendingJobs).filter fun row => row.2.dueUtc ≤ formatUtc now).map Prod.fst

theorem mem_duePaths : p ∈ ix.duePaths now ↔
    ∃ row, ix.job p = some row ∧ row.dueUtc ≤ formatUtc now := by
  unfold CacheIndex.duePaths
  simp only [List.mem_map, List.mem_filter, decide_eq_true_eq, Prod.exists, exists_and_right,
    exists_eq_right, mem_rows]
  rfl

theorem nodup_duePaths : (ix.duePaths now).Nodup :=
  (List.filter_sublist.map Prod.fst).nodup (nodup_rows _)

/-- A retry time is later than the batch. -/
theorem not_due_retry (hnow : BeforeYear9999 now) (job : PendingJob) :
    ¬ formatUtc (retryDue now job) ≤ formatUtc now := by
  obtain ⟨hlo, hhi⟩ := retrySeconds_bounds job.retries
  have bnow := castSeconds_bounds hnow.inRange
  have hlast := hnow.castSeconds_lt
  unfold year9999 at hlast
  rw [formatUtc_retryDue hnow, formatUtc_le_now (by unfold year0; omega) (by omega) hnow.inRange]
  omega

/-- The jobs of a snapshot have a path. -/
theorem snapshot_paths {clock : ℤ} (hpath : ix.job [] = none)
    (hjobs : ix.IsDueJobs clock now sv.settings.dueBatchSize (xs.map (·.job))) :
    ∃ l, IsSelect (fun row => row.2.dueUtc ≤ formatUtc now) (fun row => row.2.dueUtc)
        sv.settings.dueBatchSize ix.pendingJobs l ∧ xs.map (·.job.relativePath) = l.map Prod.fst ∧
      ∀ x ∈ xs, x.job.relativePath ≠ [] := by
  obtain ⟨l, hl, hread⟩ := hjobs
  have hpaths := paths_of_read hread
  refine ⟨l, hl, hpaths, fun x hx heq => ?_⟩
  have hmem : x.job.relativePath ∈ l.map Prod.fst := hpaths ▸ List.mem_map_of_mem hx
  obtain ⟨⟨p, row⟩, hm, hp⟩ := List.mem_map.1 hmem
  have hjob : ix.job p = some row := (hl.mem hm).1
  rw [show p = [] from hp.trans heq, hpath] at hjob
  cases hjob

/-- **A batch leaves fewer jobs due**: none that it tried, and no new one. -/
theorem duePaths_batch {clock : ℤ} (hpath : ix.job [] = none) (hnow : BeforeYear9999 now)
    (hlimit : 0 ≤ sv.settings.dueBatchSize)
    (hjobs : ix.IsDueJobs clock now sv.settings.dueBatchSize (xs.map (·.job)))
    (hbatch : Batch sv now ix xs ix') :
    (ix'.duePaths now).length ≤
      (ix.duePaths now).length - sv.settings.dueBatchSize.toNat := by
  obtain ⟨l, hl, hpaths, hne⟩ := snapshot_paths hpath hjobs
  have hlength : (l.map Prod.fst).length =
      min sv.settings.dueBatchSize.toNat (ix.duePaths now).length := by
    unfold CacheIndex.duePaths
    rw [List.length_map, List.length_map, hl.length_eq_min hlimit, List.countP_eq_length_filter]
  have hleft : ∀ p ∈ ix'.duePaths now, p ∈ ix.duePaths now ∧ p ∉ l.map Prod.fst := by
    intro p hp
    obtain ⟨row, hrow, hdue⟩ := mem_duePaths.1 hp
    rcases hbatch.settles hne hrow with ⟨x, -, -, hretry⟩ | ⟨hrest, hold⟩
    · rw [hretry] at hdue
      exact absurd hdue (not_due_retry hnow x.job)
    · refine ⟨mem_duePaths.2 ⟨row, hold, hdue⟩, ?_⟩
      rw [← hpaths]
      intro hmem
      obtain ⟨x, hx, hxp⟩ := List.mem_map.1 hmem
      exact hrest x hx hxp
  have htried : ∀ p ∈ l.map Prod.fst, p ∈ ix.duePaths now := by
    intro p hp
    obtain ⟨⟨q, row⟩, hm, rfl⟩ := List.mem_map.1 hp
    obtain ⟨hrow, hdue⟩ := hl.mem hm
    exact mem_duePaths.2 ⟨row, hrow, of_decide_eq_true hdue⟩
  -- what is left and what was tried are different due jobs
  have hnodup : (ix'.duePaths now ++ l.map Prod.fst).Nodup :=
    nodup_duePaths.append hl.nodup fun p hp hq => (hleft p hp).2 hq
  have hsubset : ix'.duePaths now ++ l.map Prod.fst ⊆ ix.duePaths now := by
    intro p hp
    rcases List.mem_append.1 hp with hp | hp
    · exact (hleft p hp).1
    · exact htried p hp
  have hle := (hnodup.subperm hsubset).length_le
  rw [List.length_append, hlength] at hle
  omega

/-- A batch keeps the jobs at times the text can tell. -/
theorem dated_batch {clock : ℤ} (hpath : ix.job [] = none) (hnow : BeforeYear9999 now)
    (hjobs : ix.IsDueJobs clock now sv.settings.dueBatchSize (xs.map (·.job)))
    (hbatch : Batch sv now ix xs ix') (hdated : ix.Dated) :
    ix'.Dated ∧ ix'.job [] = none := by
  obtain ⟨l, -, -, hne⟩ := snapshot_paths hpath hjobs
  constructor
  · intro p row hrow
    rcases hbatch.settles hne hrow with ⟨x, -, -, hretry⟩ | ⟨-, hold⟩
    · have hrange := castSeconds_bounds hnow.inRange
      obtain ⟨hlo, hhi⟩ := retrySeconds_bounds x.job.retries
      refine ⟨castSeconds now + retrySeconds x.job.retries, ?_, by unfold year0; omega, ?_⟩
      · rw [hretry, formatUtc_retryDue hnow]
      · have hlast := hnow.castSeconds_lt
        unfold year9999 at hlast
        omega
    · exact hdated p row hold
  · cases hrow : ix'.job [] with
    | none => rfl
    | some row =>
      rcases hbatch.settles hne hrow with ⟨x, hx, hempty, -⟩ | ⟨-, hold⟩
      · exact absurd hempty (hne x hx)
      · rw [hpath] at hold
        cases hold

/-- **Successive batches** of size `b` leave `k * b` due jobs less. -/
theorem batches_settle {k : ℕ} (h : Batches sv now k ix ix') (hnow : BeforeYear9999 now)
    (hlimit : 0 ≤ sv.settings.dueBatchSize) (hpath : ix.job [] = none) (hdated : ix.Dated) :
    (ix'.duePaths now).length ≤
        (ix.duePaths now).length - k * sv.settings.dueBatchSize.toNat ∧ ix'.Dated := by
  induction h with
  | none => exact ⟨by omega, hdated⟩
  | call htr hcancel _ ih =>
    obtain ⟨xs, hjobs, -, hbatch, -⟩ := runDueOnce_traces htr hcancel
    have hstep := duePaths_batch hpath hnow hlimit hjobs hbatch
    obtain ⟨hdated', hpath'⟩ := dated_batch hpath hnow hjobs hbatch hdated
    obtain ⟨hrest, hlast⟩ := ih hpath' hdated'
    refine ⟨?_, hlast⟩
    rw [Nat.succ_mul]
    omega

/-- The due jobs, counted by time and by text. -/
theorem length_duePaths (hdue : ix.DueSeconds due) (hnow : InRange now) :
    (ix.duePaths now).length = ix.dueRows due now := by
  unfold CacheIndex.duePaths CacheIndex.dueRows
  rw [List.length_map, ← List.countP_eq_length_filter]
  refine List.countP_congr ?_
  rintro ⟨p, row⟩ hrow
  obtain ⟨htext, h0, h1⟩ := hdue p row (mem_rows.1 hrow)
  rw [decide_eq_true_iff, decide_eq_true_iff, htext,
    formatUtc_le_now h0 (by unfold year9999 at h1; omega) hnow]

/-- **The batch step and the draining**, for jobs with a path that are due from year 0 on:
without eviction a batch does what `BatchDone` says, and `⌈n / b⌉` batches leave every job at a
later time than theirs. -/
theorem batches_drain (hpath : ix.job [] = none) (hdue : ix.DueSeconds due)
    (hnow : BeforeYear9999 now) (hlimit : 1 ≤ sv.settings.dueBatchSize) :
    (¬ sv.Evicts → ∀ {w w' : World V} {tr : List Answered} {count : ℕ}, w.index = ix →
      (runDueOnce sv now).Traces (S := calls) (exec sv) w tr (.ok count) w' → NoCancel tr →
      ∃ xs : List JobTry,
        tr = ⟨.query (.dueJobs now sv.settings.dueBatchSize), .ok (xs.map (·.job))⟩ ::
          xs.flatMap (JobTry.calls sv now) ∧
        (∀ x ∈ xs, x.room = []) ∧ BatchDone sv now due ix xs w'.index count) ∧
    ∀ {ix' : CacheIndex},
      Batches sv now ((ix.dueRows due now + sv.settings.dueBatchSize.toNat - 1) /
        sv.settings.dueBatchSize.toNat) ix ix' →
      ∀ p row, ix'.job p = some row → ∃ s, row.dueUtc = formatUtc (s * ticksPerSecond) ∧
        year0 ≤ s ∧ s < 253402300800 ∧ castSeconds now < s := by
  constructor
  · rintro hoff w w' tr count rfl htr hcancel
    obtain ⟨xs, hjobs, htr, hbatch, hcount⟩ := runDueOnce_traces htr hcancel
    exact ⟨xs, htr, hbatch.room_nil hoff,
      batchDone_of_batch hdue hpath hnow hlimit hoff hjobs hbatch hcount⟩
  · intro ix' hbatches p row hrow
    have hdated : ix.Dated := by
      intro q row hrow
      obtain ⟨htext, h0, h1⟩ := hdue q row hrow
      exact ⟨due q, htext, h0, by unfold year9999 at h1; omega⟩
    obtain ⟨hleft, hlast⟩ := batches_settle hbatches hnow (by omega) hpath hdated
    rw [length_duePaths hdue hnow.inRange] at hleft
    have hceil := Nat.lt_div_mul_add (a := ix.dueRows due now + sv.settings.dueBatchSize.toNat - 1)
      (b := sv.settings.dueBatchSize.toNat) (by omega)
    have hnone : ix'.duePaths now = [] := List.eq_nil_of_length_eq_zero (by omega)
    obtain ⟨s, htext, h0, h1⟩ := hlast p row hrow
    refine ⟨s, htext, h0, h1, ?_⟩
    by_contra hle
    have hmem : p ∈ ix'.duePaths now := by
      refine mem_duePaths.2 ⟨row, hrow, ?_⟩
      rw [htext, formatUtc_le_now h0 h1 hnow.inRange]
      omega
    rw [hnone] at hmem
    cases hmem

/-! ## Executing batches -/

/-- The path that a call copies. -/
def copyPath : Answered → Option WString
  | ⟨.copyAndHash p _ _ _, _⟩ => some p
  | _ => none

/-- Two jobs; the one of `[98]` is due first. -/
def twoDue : World Disk where
  index := (jobDue [97]).index.recordAccess { relativePath := [98], observedAt := 0 } 30
  volume := {}
  clock := 600000000

/-- When they are due. -/
def twoDueSeconds (p : WString) : ℤ := if p = [98] then 30 else 60

theorem dueSeconds_twoDue : twoDue.index.DueSeconds twoDueSeconds := by
  intro q row hrow
  have hfirst : (Update.recordAccess { relativePath := [97], observedAt := 0 } 60).apply {} =
      .ok (jobDue [97]).index := rfl
  have hsecond : (Update.recordAccess { relativePath := [98], observedAt := 0 } 30).apply
      (jobDue [97]).index = .ok twoDue.index := rfl
  rw [Update.job_apply hsecond q, Update.job_apply hfirst q] at hrow
  simp only [Update.onJob] at hrow
  by_cases h98 : q = [98]
  · subst h98
    rw [if_pos ⟨rfl, List.cons_ne_nil _ _, rfl⟩] at hrow
    cases hrow
    exact ⟨rfl, show year0 ≤ 30 by decide, show 30 < year9999 by decide⟩
  · rw [if_neg fun h => h98 h.1] at hrow
    split at hrow
    · cases hrow
      rw [twoDueSeconds, if_neg h98]
      exact ⟨rfl, by decide, by decide⟩
    · exact absurd hrow.symm (Option.some_ne_none row)

/-- One job at a time, in the order in which they are due; the second batch leaves nothing due. -/
theorem batches_drain_twoDue : ∃ tr w₁ xs tr' w₂,
    (runDueOnce (diskService { dueBatchSize := 1 }) 600000000).Traces (S := calls)
      (exec (diskService { dueBatchSize := 1 })) twoDue tr (.ok 1) w₁ ∧
    tr.filterMap copyPath = [[98]] ∧
    BatchDone (diskService { dueBatchSize := 1 }) 600000000 twoDueSeconds twoDue.index xs
      w₁.index 1 ∧
    (runDueOnce (diskService { dueBatchSize := 1 }) 600000000).Traces (S := calls)
      (exec (diskService { dueBatchSize := 1 })) w₁ tr' (.ok 1) w₂ ∧
    tr'.filterMap copyPath = [[97]] ∧
    ∀ p row, w₂.index.job p = some row → ∃ s, row.dueUtc = formatUtc (s * ticksPerSecond) ∧
      year0 ≤ s ∧ s < 253402300800 ∧ castSeconds 600000000 < s := by
  obtain ⟨tr, _, w₁, h, rfl, hcopy, hcancel, hnext⟩ := exists_traces { dueBatchSize := 1 }
    (runDueOnce (diskService { dueBatchSize := 1 }) 600000000) twoDue
    (fun x => x.2.1 = .ok 1 ∧ x.1.filterMap copyPath = [[98]] ∧ NoCancel x.1 ∧
      (((runDueOnce (diskService { dueBatchSize := 1 }) 600000000).transcript (S := calls)
        answer x.2.2).any fun y : List Answered × Except String ℕ × World Disk =>
          decide (y.2.1 = .ok 1 ∧ y.1.filterMap copyPath = [[97]] ∧ NoCancel y.1)) = true)
    (by decide +kernel)
  obtain ⟨tr', _, w₂, h', rfl, hcopy', hcancel'⟩ := exists_traces { dueBatchSize := 1 }
    (runDueOnce (diskService { dueBatchSize := 1 }) 600000000) w₁ _ hnext
  have hnow : BeforeYear9999 600000000 := by decide
  have hlimit : 1 ≤ (diskService { dueBatchSize := 1 }).settings.dueBatchSize := by decide
  obtain ⟨hstep, hdrain⟩ := batches_drain (show twoDue.index.job [] = none by decide)
    dueSeconds_twoDue hnow hlimit
  obtain ⟨xs, -, -, hdone⟩ := hstep (by decide) rfl h hcancel
  refine ⟨tr, w₁, xs, tr', w₂, h, hcopy, hdone, h', hcopy', hdrain ?_⟩
  have hcount : twoDue.index.dueRows twoDueSeconds 600000000 = 2 := by decide
  rw [hcount]
  exact .call h hcancel (.call h' hcancel' .none)

/-- The tables of an index with one job, for the empty path. -/
def emptyPathFiles : Table WString FileRow := upsert [] (fun _ => { lastSeenUtc := formatUtc 0 }) ∅

def emptyPathJobs : Table WString JobRow :=
  upsert [] (fun _ => { dueUtc := formatUtc 0, reason := "read_open" }) ∅

theorem fk_emptyPath : ∀ p, p ∈ emptyPathJobs → p ∈ emptyPathFiles := by
  intro p hp
  rw [emptyPathJobs, mem_upsert] at hp
  rw [emptyPathFiles, mem_upsert]
  exact hp.imp id fun h => absurd h (AList.notMem_empty p)

def emptyPathIndex : CacheIndex := ⟨emptyPathFiles, emptyPathJobs, fk_emptyPath⟩

/-- The first job is due in year -2, the second one in year -1. -/
def beforeYear0 : CacheIndex :=
  (({} : CacheIndex).recordAccess { relativePath := [97], observedAt := -622017792000000000 } 0).recordAccess
    { relativePath := [98], observedAt := -621680832000000000 } 0

/-- **Not every job settles**: the retry of the empty path is not recorded, so that it stays
due, and before year 0 a batch of one takes the later of two jobs. -/
theorem batches_undrained :
    (∃ tr w', (runDueOnce (diskService {}) 0).Traces (S := calls) (exec (diskService {}))
        { index := emptyPathIndex, volume := { script := [.failed] }, clock := 0 } tr (.ok 0) w' ∧
      NoCancel tr ∧ tr.filterMap copyPath = [[]] ∧
      ∃ row, w'.index.job [] = some row ∧ row.dueUtc ≤ formatUtc 0) ∧
    (beforeYear0.job [97]).map (·.dueUtc) = some (formatUtc (-622017792000000000)) ∧
    (beforeYear0.job [98]).map (·.dueUtc) = some (formatUtc (-621680832000000000)) ∧
    ∃ tr w', (runDueOnce (diskService { dueBatchSize := 1 }) 0).Traces (S := calls)
        (exec (diskService { dueBatchSize := 1 }))
        { index := beforeYear0, volume := {}, clock := 0 } tr (.ok 1) w' ∧
      NoCancel tr ∧ tr.filterMap copyPath = [[98]] := by
  refine ⟨?_, by decide, by decide, ?_⟩
  · obtain ⟨tr, _, w', h, rfl, hcancel, hcopy, hjob⟩ := exists_traces {} (runDueOnce (diskService {}) 0)
      { index := emptyPathIndex, volume := { script := [.failed] }, clock := 0 }
      (fun x => x.2.1 = .ok 0 ∧ NoCancel x.1 ∧ x.1.filterMap copyPath = [[]] ∧
        (x.2.2.index.job []).any (fun row => decide (row.dueUtc ≤ formatUtc 0)) = true)
      (by decide +kernel)
    obtain ⟨row, hrow, hdue⟩ := (Option.any_eq_true ..).1 hjob
    exact ⟨tr, w', h, hcancel, hcopy, row, hrow, of_decide_eq_true hdue⟩
  · obtain ⟨tr, _, w', h, rfl, hcancel, hcopy⟩ := exists_traces { dueBatchSize := 1 }
      (runDueOnce (diskService { dueBatchSize := 1 }) 0)
      { index := beforeYear0, volume := {}, clock := 0 }
      (fun x => x.2.1 = .ok 1 ∧ NoCancel x.1 ∧ x.1.filterMap copyPath = [[98]]) (by decide +kernel)
    exact ⟨tr, w', h, hcancel, hcopy⟩

end SsdCache
