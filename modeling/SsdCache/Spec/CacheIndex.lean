import SsdCache.Spec.AccessEvent
import SsdCache.Spec.Time
import SsdCache.Sql.Table
import Mathlib.Data.Prod.Lex

/-!
# The cache index

The SQLite store (`cache_index.cpp`): the tables `files` and `pending_jobs`, and
one definition for each statement or transaction the class runs. The foreign key
of `pending_jobs` is a field of `CacheIndex`, so an index with a job without its
file cannot be built; inserting such a job is the constraint error SQLite raises.
Queries whose order SQL leaves open are relations (`IsDueJobs`, …).
-/

namespace SsdCache

open Sql

/-- A row of `files`; `none` is SQL `NULL`. -/
structure FileRow where
  lastSeenUtc : Text
  lastWriteCloseUtc : Option Text := none
  sourceSizeBytes : UInt64 := 0
  cachedSizeBytes : Option UInt64 := none
  cachedAtUtc : Option Text := none
  hashAlgo : Option String := none
  hashHex : Option String := none
  hashAtUtc : Option Text := none
  cachePresent : Bool := false
  lastError : Option String := none
  lastRequestorPid : UInt64 := 0
  lastRequestorProcess : String := ""
  deriving DecidableEq, Repr

/-- A row of `pending_jobs`. -/
structure JobRow where
  dueUtc : Text
  reason : String
  retries : ℕ := 0
  requestorPid : UInt64 := 0
  requestorProcess : String := ""
  deriving DecidableEq, Repr

theorem fk_empty : ∀ p, p ∈ (∅ : Table WString JobRow) → p ∈ (∅ : Table WString FileRow) := by
  simp

/-- The database, with its foreign key. -/
structure CacheIndex where
  files : Table WString FileRow := ∅
  pendingJobs : Table WString JobRow := ∅
  fk : ∀ p, p ∈ pendingJobs → p ∈ files := by exact fk_empty

/-- `FileRecord`, as `file_record` reads it. -/
structure FileRecord where
  relativePath : WString
  lastSeenUtc : ℤ
  lastWriteCloseUtc : Option ℤ
  sourceSizeBytes : UInt64
  cachedSizeBytes : UInt64
  cachedAtUtc : Option ℤ
  hashAlgo : String
  hashHex : String
  hashAtUtc : Option ℤ
  cachePresent : Bool
  lastError : String
  lastRequestorPid : UInt64
  lastRequestorProcess : String

/-- `CachedFileRef`. -/
structure CachedFileRef where
  relativePath : WString
  cachedSizeBytes : UInt64
  deriving DecidableEq, Repr

/-- `PendingJob`. -/
structure PendingJob where
  relativePath : WString
  dueUtc : ℤ
  reason : String
  retries : ℕ
  requestorPid : UInt64
  requestorProcess : String
  deriving DecidableEq, Repr

/-- Code points of a path, which order its UTF-8 text bytewise. -/
def codePoints : WString → List ℕ
  | [] => []
  | [u] => [u.toNat]
  | u :: v :: s =>
    if 0xD800 ≤ u ∧ u < 0xDC00 ∧ 0xDC00 ≤ v ∧ v < 0xE000 then
      (0x10000 + (u.toNat - 0xD800) * 0x400 + (v.toNat - 0xDC00)) :: codePoints s
    else u.toNat :: codePoints (v :: s)

namespace CacheIndex

variable (ix : CacheIndex)

/-! ## Statements -/

/-- The `files` row of an access: inserted with `cache_present=0`, or updated. -/
def accessFile (format : ℤ → Text) (event : AccessEvent) : Option FileRow → FileRow
  | none =>
    { lastSeenUtc := format event.observedAt
      lastWriteCloseUtc :=
        if event.kind = .writeClosed then some (format event.observedAt) else none
      sourceSizeBytes := event.sizeHint
      lastRequestorPid := event.requestorPid
      lastRequestorProcess := event.requestorProcess }
  | some row =>
    { row with
      lastSeenUtc := format event.observedAt
      lastWriteCloseUtc :=
        if event.kind = .writeClosed then some (format event.observedAt)
        else row.lastWriteCloseUtc
      sourceSizeBytes := event.sizeHint
      lastRequestorPid := event.requestorPid
      lastRequestorProcess := event.requestorProcess }

/-- The `pending_jobs` row of an access; an update keeps the retries. -/
def accessJob (format : ℤ → Text) (event : AccessEvent) (copyDelay : ℤ) : Option JobRow → JobRow
  | none =>
    { dueUtc := format (addSeconds event.observedAt copyDelay)
      reason := accessKindToString event.kind
      requestorPid := event.requestorPid
      requestorProcess := event.requestorProcess }
  | some row =>
    { row with
      dueUtc := format (addSeconds event.observedAt copyDelay)
      reason := accessKindToString event.kind
      requestorPid := event.requestorPid
      requestorProcess := event.requestorProcess }

/-- `record_access`, with the time points as a platform writes them. -/
def recordAccessWith (format : ℤ → Text) (event : AccessEvent) (copyDelay : ℤ) : CacheIndex :=
  if event.relativePath = [] then ix
  else
    { files := upsert event.relativePath (accessFile format event) ix.files
      pendingJobs :=
        if shouldScheduleCopy event.kind then
          upsert event.relativePath (accessJob format event copyDelay) ix.pendingJobs
        else ix.pendingJobs
      fk := by
        intro p hp
        rw [mem_upsert]
        split at hp
        · rw [mem_upsert] at hp; exact hp.imp id (ix.fk p)
        · exact .inr (ix.fk p hp) }

def recordAccess (event : AccessEvent) (copyDelay : ℤ) : CacheIndex :=
  ix.recordAccessWith formatUtc event copyDelay

/-- The row of `upsert_pending_job`; an update keeps retries and requestor. -/
def retryJob (dueUtc : ℤ) (reason : String) : Option JobRow → JobRow
  | none => { dueUtc := formatUtc dueUtc, reason := reason }
  | some row => { row with dueUtc := formatUtc dueUtc, reason := reason }

def upsertPendingJob (relativePath : WString) (dueUtc : ℤ) (reason : String) :
    Except String CacheIndex :=
  if relativePath = [] then .ok ix
  else if hp : relativePath ∈ ix.files then
    .ok
      { ix with
        pendingJobs := upsert relativePath (retryJob dueUtc reason) ix.pendingJobs
        fk := by
          intro p h
          rw [mem_upsert] at h
          rcases h with rfl | h
          · exact hp
          · exact ix.fk p h }
  else .error "FOREIGN KEY constraint failed"

def removePendingJob (relativePath : WString) : CacheIndex :=
  { ix with
    pendingJobs := ix.pendingJobs.erase relativePath
    fk := fun p h => ix.fk p (AList.mem_erase.1 h).2 }

def deleteRecord (relativePath : WString) : CacheIndex :=
  { files := ix.files.erase relativePath
    pendingJobs := ix.pendingJobs.erase relativePath
    fk := fun p h => AList.mem_erase.2 ⟨(AList.mem_erase.1 h).1, ix.fk p (AList.mem_erase.1 h).2⟩ }

/-- `UPDATE files SET … WHERE relative_path = p`. -/
def updateFile (relativePath : WString) (f : FileRow → FileRow) : CacheIndex :=
  { ix with
    files := update relativePath f ix.files
    fk := fun p h => mem_update.2 (ix.fk p h) }

def markCached (relativePath : WString) (sourceSizeBytes cachedSizeBytes : UInt64)
    (hashHex : String) (cachedAtUtc : ℤ) : CacheIndex :=
  ix.updateFile relativePath fun row =>
    { row with
      sourceSizeBytes := sourceSizeBytes
      cachedSizeBytes := some cachedSizeBytes
      cachedAtUtc := some (formatUtc cachedAtUtc)
      hashAlgo := some "sha256"
      hashHex := some hashHex
      hashAtUtc := some (formatUtc cachedAtUtc)
      cachePresent := true
      lastError := none }

def recordError (relativePath : WString) (errorMessage : String) : CacheIndex :=
  let ix := ix.updateFile relativePath fun row => { row with lastError := some errorMessage }
  { ix with
    pendingJobs :=
      update relativePath (fun row => { row with retries := row.retries + 1 }) ix.pendingJobs
    fk := fun p h => ix.fk p (mem_update.1 h) }

def markRemoved (relativePath : WString) : CacheIndex :=
  (ix.removePendingJob relativePath).updateFile relativePath fun row =>
    { row with cachePresent := false, lastError := none }

/-! ## Queries -/

/-- `read_pending_job`, with the time points as a platform reads them; a due time that does
not parse reads as the clock. -/
def readPendingJobWith (parse : Text → Option ℤ) (clock : ℤ) (row : WString × JobRow) : PendingJob :=
  ⟨row.1, (parse row.2.dueUtc).getD clock, row.2.reason, row.2.retries, row.2.requestorPid,
    row.2.requestorProcess⟩

def readPendingJob (clock : ℤ) (row : WString × JobRow) : PendingJob :=
  readPendingJobWith parseUtc clock row

def pendingJob (clock : ℤ) (relativePath : WString) : Option PendingJob :=
  (ix.pendingJobs.lookup relativePath).map fun row => readPendingJob clock (relativePath, row)

def fileRecord (clock : ℤ) (relativePath : WString) : Option FileRecord :=
  (ix.files.lookup relativePath).map fun row =>
    { relativePath
      lastSeenUtc := (parseUtc row.lastSeenUtc).getD clock
      lastWriteCloseUtc := row.lastWriteCloseUtc.bind parseUtc
      sourceSizeBytes := row.sourceSizeBytes
      cachedSizeBytes := row.cachedSizeBytes.getD 0
      cachedAtUtc := row.cachedAtUtc.bind parseUtc
      hashAlgo := row.hashAlgo.getD ""
      hashHex := row.hashHex.getD ""
      hashAtUtc := row.hashAtUtc.bind parseUtc
      cachePresent := row.cachePresent
      lastError := row.lastError.getD ""
      lastRequestorPid := row.lastRequestorPid
      lastRequestorProcess := row.lastRequestorProcess }

def loadRecordPaths : List WString :=
  (rows ix.files).map Prod.fst |>.insertionSort fun a b => codePoints a ≤ codePoints b

/-- The rows of `due_jobs`: `WHERE due_utc <= ?1 ORDER BY due_utc LIMIT ?2`. -/
def IsDueJobsWith (format : ℤ → Text) (parse : Text → Option ℤ) (clock nowUtc : ℤ) (limit : ℤ)
    (jobs : List PendingJob) : Prop :=
  ∃ l, IsSelect (fun row => row.2.dueUtc ≤ format nowUtc) (fun row => row.2.dueUtc) limit
    ix.pendingJobs l ∧ jobs = l.map (readPendingJobWith parse clock)

def IsDueJobs (clock nowUtc : ℤ) (limit : ℤ) (jobs : List PendingJob) : Prop :=
  ix.IsDueJobsWith formatUtc parseUtc clock nowUtc limit jobs

/-- The answer of `due_jobs` that keeps ties in table order. -/
def dueJobs (clock nowUtc : ℤ) (limit : ℤ) : List PendingJob :=
  (select (fun row => row.2.dueUtc ≤ formatUtc nowUtc) (fun row => row.2.dueUtc) limit
    ix.pendingJobs).map (readPendingJob clock)

/-- The rows of `load_pending_jobs`: all, `ORDER BY due_utc`. -/
def IsLoadPendingJobs (clock : ℤ) (jobs : List PendingJob) : Prop :=
  ∃ l, IsSelect (fun _ => true) (fun row => row.2.dueUtc) (-1) ix.pendingJobs l ∧
    jobs = l.map (readPendingJob clock)

def loadPendingJobs (clock : ℤ) : List PendingJob :=
  (select (fun _ => true) (fun row => row.2.dueUtc) (-1) ix.pendingJobs).map (readPendingJob clock)

/-- The sort key of `cached_files_by_last_access`. -/
def lastAccessKey (row : WString × FileRow) : Text ×ₗ List ℕ :=
  toLex (row.2.lastSeenUtc, codePoints row.1)

def readCachedFile (row : WString × FileRow) : CachedFileRef :=
  ⟨row.1, row.2.cachedSizeBytes.getD 0⟩

/-- The rows of `cached_files_by_last_access`: `WHERE cache_present=1 ORDER BY
last_seen_utc ASC, relative_path ASC`. -/
def IsCachedFilesByLastAccess (files : List CachedFileRef) : Prop :=
  ∃ l, IsSelect (fun row => row.2.cachePresent) lastAccessKey (-1) ix.files l ∧
    files = l.map readCachedFile

def cachedFilesByLastAccess : List CachedFileRef :=
  (select (fun row => row.2.cachePresent) lastAccessKey (-1) ix.files).map readCachedFile

end CacheIndex

end SsdCache
