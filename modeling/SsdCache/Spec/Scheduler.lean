import SsdCache.Spec.Calls

/-!
# The pending-copy scheduler

`PendingCopyScheduler` (`job_scheduler.cpp`) as programs over the atomic calls, one
definition for each member function. The worker loop is cut at its top: one
`workerIteration` runs to the `continue` or the wait. Log lines are left out, but
not the conversion of an event's path, which throws; paths of the index and the heap
have been converted before.
-/

namespace SsdCache

open Atomic

/-- UTF-16 text: every surrogate has its partner. -/
def wellFormed : WString → Bool
  | [] => true
  | [u] => u < 0xD800 || 0xE000 ≤ u
  | u :: v :: s =>
    if 0xD800 ≤ u && u < 0xDC00 then 0xDC00 ≤ v && v < 0xE000 && wellFormed s
    else (u < 0xD800 || 0xE000 ≤ u) && wellFormed (v :: s)

/-- The conversion of a path to UTF-8, for its exception only. -/
def narrowPath (relativePath : WString) : Task Unit :=
  if wellFormed relativePath then pure () else .throw "failed to convert UTF-16 to UTF-8"

variable {V : Type}

/-! ## Events -/

def enqueue (relativePath : WString) (dueUtc : ℤ) : Task Unit :=
  memory (.push relativePath (floorToSeconds dueUtc))

def recordEvent (sv : Service V) (event : AccessEvent) : Task Unit :=
  if event.relativePath = [] then pure ()
  else do
    let paused : Bool ← memory .loadPaused
    -- every branch converts the path before it does anything
    narrowPath event.relativePath
    if paused then pure ()
    else if event.kind = .delete then update (.markRemoved event.relativePath)
    else do
      update (.recordAccess event sv.settings.copyDelay)
      if shouldScheduleCopy event.kind then
        enqueue event.relativePath (addSeconds event.observedAt sv.settings.copyDelay)
      else pure ()

/-! ## Eviction -/

/-- The loop of `make_room_for` over the victims, with the tracked free space. -/
def evictVictims (sv : Service V) (relativePath : WString) (required : UInt64) :
    List CachedFileRef → UInt64 → Task Unit
  | [], _ => pure ()
  | victim :: victims, free =>
    if free ≥ required then pure ()
    else if victim.relativePath = relativePath then
      evictVictims sv relativePath required victims free
    else do
      let removeResult : RemoveResult ← Prog.perform (S := calls)
        (.removeCachedFile victim.relativePath (sv.pathResolver.cacheAbsolute victim.relativePath))
      if removeResult.Clean then do
        update (.markRemoved victim.relativePath)
        let updated : Option UInt64 ← Prog.perform (S := calls) (.freeBytes sv.settings.cacheRoot)
        evictVictims sv relativePath required victims
          (updated.getD (free + victim.cachedSizeBytes))
      else evictVictims sv relativePath required victims free

def makeRoomFor (sv : Service V) (relativePath : WString) : Task Unit :=
  if sv.freeSpace = false ∨ sv.settings.minFreeBytes = 0 then pure ()
  else do
    let record : Option FileRecord ← query (.fileRecord relativePath)
    let incomingSize := (record.map (·.sourceSizeBytes)).getD 0
    let required := max incomingSize sv.settings.minFreeBytes
    let free : Option UInt64 ← Prog.perform (S := calls) (.freeBytes sv.settings.cacheRoot)
    match free with
    | none => pure ()
    | some free =>
      if free ≥ required then pure ()
      else do
        let victims : List CachedFileRef ← query .cachedFilesByLastAccess
        evictVictims sv relativePath required victims free

/-! ## Batches -/

/-- Seconds until the next try. -/
def retrySeconds (retries : ℕ) : ℤ := min 300 (30 * (retries + 1))

/-- When a job that failed in the batch of `nowUtc` is tried again. -/
def retryDue (nowUtc : ℤ) (job : PendingJob) : ℤ := addSeconds nowUtc (retrySeconds job.retries)

/-- A failed job: record the error, put the row and the heap entry to the retry time. -/
def retryLater (nowUtc : ℤ) (job : PendingJob) (errorMessage reason : String) : Task Unit := do
  update (.recordError job.relativePath errorMessage)
  update (.upsertPendingJob job.relativePath (retryDue nowUtc job) reason)
  enqueue job.relativePath (retryDue nowUtc job)

/-- The loop of `run_due_once` over the jobs of the batch. -/
def runJobs (sv : Service V) (nowUtc : ℤ) : List PendingJob → ℕ → Task ℕ
  | [], completed => pure completed
  | job :: jobs, completed => do
    let source := sv.pathResolver.sourceAbsolute job.relativePath
    let cache := sv.pathResolver.cacheAbsolute job.relativePath
    makeRoomFor sv job.relativePath
    let result : CopyResult ← Prog.perform (S := calls)
      (.copyAndHash job.relativePath source cache sv.settings.compareHashBeforeOverwrite)
    match result.action with
    | .cancelled => pure completed
    | .sourceMissing => do
      let removeResult : RemoveResult ← Prog.perform (S := calls)
        (.removeCachedFile job.relativePath cache)
      if removeResult.Clean then do
        update (.markRemoved job.relativePath)
        runJobs sv nowUtc jobs completed
      else do
        retryLater nowUtc job removeResult.errorMessage "remove stale cache"
        runJobs sv nowUtc jobs completed
    | .failed => do
      retryLater nowUtc job result.errorMessage "retry"
      runJobs sv nowUtc jobs completed
    | .copied | .skippedSameSize | .skippedHashMatch => do
      update (.markCached job.relativePath result.sourceSizeBytes result.cachedSizeBytes
        result.hashHex result.completedAt)
      update (.removePendingJob job.relativePath)
      runJobs sv nowUtc jobs (completed + 1)

def runDueOnce (sv : Service V) (nowUtc : ℤ) : Task ℕ := do
  let jobs : List PendingJob ← query (.dueJobs nowUtc sv.settings.dueBatchSize)
  runJobs sv nowUtc jobs 0

/-! ## The worker -/

/-- The batch a due heap entry starts, with the handler of its exceptions. -/
def runBatch (sv : Service V) (next : HeapEntry) : Task Unit :=
  Prog.tryCatch
    (do
      let nowUtc : ℤ ← memory .now
      let _ ← runDueOnce sv nowUtc
      pure ())
    fun error => update (.recordError next.relativePath error)

/-- What the worker does with a heap entry it popped. -/
def runEntry (sv : Service V) (next : HeapEntry) : Task Unit := do
  let paused : Bool ← memory .loadPaused
  if paused then enqueue next.relativePath next.dueUtc
  else do
    let currentJob : Option PendingJob ← query (.pendingJob next.relativePath)
    match currentJob with
    | none => pure ()
    | some job => if job.dueUtc ≠ next.dueUtc then pure () else runBatch sv next

/-- One pass of `worker_loop`; a wait ends it. -/
def workerIteration (sv : Service V) : Task Unit := do
  let stopRequested : Bool ← memory .loadStopRequested
  if stopRequested then memory .exit
  else do
    let paused : Bool ← memory .loadPaused
    if paused then pure ()
    else do
      let next : Option HeapEntry ← memory .popDue
      match next with
      | none => pure ()
      | some next => runEntry sv next

/-- The same pass with the conversion of the popped path for the log, which
`workerIteration` leaves out. -/
def workerBody (sv : Service V) : Task Unit := do
  let stopRequested : Bool ← memory .loadStopRequested
  if stopRequested then memory .exit
  else do
    let paused : Bool ← memory .loadPaused
    if paused then pure ()
    else do
      let next : Option HeapEntry ← memory .popDue
      match next with
      | none => pure ()
      | some next => do
        narrowPath next.relativePath
        runEntry sv next

/-! ## Control -/

def setPaused (paused : Bool) : Task Unit := do
  let _ ← memory (.exchangePaused paused)
  pure ()

def loadExistingJobs : Task Unit := do
  let jobs : List PendingJob ← query .loadPendingJobs
  memory (.pushAll jobs)

/-- `start` takes an earlier stop request back. -/
def clearStopRequest : Task Unit := do
  let exchanged : Bool ← memory (.compareExchangeStop false false)
  if exchanged then pure () else memory (.storeStopRequested false)

def start : Task Unit := do
  clearStopRequest
  let joinable : Bool ← memory .joinable
  if joinable then pure ()
  else do
    loadExistingJobs
    memory .spawn

/-- The first half of `stop`: the request. -/
def requestStop : Task Unit := memory (.storeStopRequested true)

/-- The second half of `stop`: wait for the worker to end. -/
def joinWorker : Task Unit := do
  let joinable : Bool ← memory .joinable
  if joinable then memory .join else pure ()

def stop : Task Unit := do
  requestStop
  joinWorker

end SsdCache
