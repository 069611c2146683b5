import SsdCache.Spec.Scheduler

/-!
# The service host

The startup of `win_service_host.cpp`: the cleanup of the index, then the jobs are
loaded. Whether a path matches the ignore patterns and whether it names a directory on
the source are parameters.
-/

namespace SsdCache

open Atomic

/-- The paths of the jobs that have no file record, after those that have. -/
def addMissing (relativePaths : List WString) : List PendingJob → List WString
  | [] => relativePaths
  | job :: jobs =>
    if job.relativePath ∈ relativePaths then addMissing relativePaths jobs
    else addMissing (relativePaths ++ [job.relativePath]) jobs

/-- The loop of `cleanup_invalid_cache_records`. -/
def cleanupPaths (ignored isDirectory : WString → Bool) : List WString → Task Unit
  | [] => pure ()
  | relativePath :: relativePaths =>
    if ignored relativePath then do
      update (.deleteRecord relativePath)
      cleanupPaths ignored isDirectory relativePaths
    else if isDirectory relativePath then do
      update (.deleteRecord relativePath)
      cleanupPaths ignored isDirectory relativePaths
    else cleanupPaths ignored isDirectory relativePaths

/-- Whether the index knows the empty path. -/
def emptyPathRecorded : Task Bool := do
  let job : Option PendingJob ← query (.pendingJob [])
  if job.isSome then pure true
  else do
    let record : Option FileRecord ← query (.fileRecord [])
    pure record.isSome

/-- The cleanup's first part: the empty-path sentinel. -/
def removeEmptyPath : Task Unit := do
  let recorded ← emptyPathRecorded
  if recorded then update (.deleteRecord []) else pure ()

def cleanupInvalidCacheRecords (ignored isDirectory : WString → Bool) : Task Unit := do
  removeEmptyPath
  let relativePaths : List WString ← query .loadRecordPaths
  let jobs : List PendingJob ← query .loadPendingJobs
  cleanupPaths ignored isDirectory (addMissing relativePaths jobs)

/-- What a new process does with the index before its worker runs. -/
def startup (ignored isDirectory : WString → Bool) : Task Unit := do
  cleanupInvalidCacheRecords ignored isDirectory
  loadExistingJobs

/-- A process that dies in `w` loses its memory; the one after it starts up to `w'`. -/
def Restarts {V : Type} (sv : Service V) (ignored isDirectory : WString → Bool) (w w' : World V) :
    Prop :=
  ∃ clock, (startup ignored isDirectory).Ends (exec sv) { w with memory := {}, clock } (.ok ()) w'

end SsdCache
