import SsdCache.Atomic.Machine
import SsdCache.Spec.CacheIndex
import SsdCache.Spec.Engine

/-!
# The atomic calls of the service

One step of the system is one call: a `CacheIndex` method (atomic under its
mutex and transaction), a call of the copy engine or the free-space provider, or
an access to the scheduler's memory (an atomic flag, the heap under its mutex, the
thread handle, the clock). `exec` says what a call does to the `World`. Every index
and engine call may also throw.
-/

namespace SsdCache

open Atomic

/-! ## Index calls -/

/-- The statements that write the index. -/
inductive Update
  | recordAccess (event : AccessEvent) (copyDelay : ℤ)
  | upsertPendingJob (relativePath : WString) (dueUtc : ℤ) (reason : String)
  | removePendingJob (relativePath : WString)
  | deleteRecord (relativePath : WString)
  | markCached (relativePath : WString) (sourceSizeBytes cachedSizeBytes : UInt64)
      (hashHex : String) (cachedAtUtc : ℤ)
  | recordError (relativePath : WString) (errorMessage : String)
  | markRemoved (relativePath : WString)
  deriving DecidableEq

namespace Update

def apply (ix : CacheIndex) : Update → Except String CacheIndex
  | recordAccess event copyDelay => .ok (ix.recordAccess event copyDelay)
  | upsertPendingJob relativePath dueUtc reason => ix.upsertPendingJob relativePath dueUtc reason
  | removePendingJob relativePath => .ok (ix.removePendingJob relativePath)
  | deleteRecord relativePath => .ok (ix.deleteRecord relativePath)
  | markCached relativePath sourceSizeBytes cachedSizeBytes hashHex cachedAtUtc =>
    .ok (ix.markCached relativePath sourceSizeBytes cachedSizeBytes hashHex cachedAtUtc)
  | recordError relativePath errorMessage => .ok (ix.recordError relativePath errorMessage)
  | markRemoved relativePath => .ok (ix.markRemoved relativePath)

/-- What a call that throws leaves behind: transactions roll back, but
`record_error` runs two statements outside a transaction. -/
def Fails (ix : CacheIndex) : Update → CacheIndex → Prop
  | recordError relativePath errorMessage, ix' =>
    ix' = ix ∨ ix' = ix.updateFile relativePath fun row => { row with lastError := some errorMessage }
  | _, ix' => ix' = ix

end Update

/-- The statements that read the index. -/
inductive Query
  | pendingJob (relativePath : WString)
  | fileRecord (relativePath : WString)
  | loadPendingJobs
  | loadRecordPaths
  | dueJobs (nowUtc : ℤ) (limit : ℤ)
  | cachedFilesByLastAccess

def Query.Answer : Query → Type
  | pendingJob _ => Option PendingJob
  | fileRecord _ => Option FileRecord
  | loadPendingJobs => List PendingJob
  | loadRecordPaths => List WString
  | dueJobs _ _ => List PendingJob
  | cachedFilesByLastAccess => List CachedFileRef

/-- The answers SQL allows, with the clock that unparsable times read as. -/
def Query.Answers (ix : CacheIndex) (clock : ℤ) : (q : Query) → q.Answer → Prop
  | pendingJob p, r => r = ix.pendingJob clock p
  | fileRecord p, r => r = ix.fileRecord clock p
  | loadPendingJobs, r => ix.IsLoadPendingJobs clock r
  | loadRecordPaths, r => r = ix.loadRecordPaths
  | dueJobs nowUtc limit, r => ix.IsDueJobs clock nowUtc limit r
  | cachedFilesByLastAccess, r => ix.IsCachedFilesByLastAccess r

/-! ## The scheduler's memory -/

structure HeapEntry where
  dueUtc : ℤ
  sequence : ℕ
  relativePath : WString
  deriving DecidableEq, Repr

/-- `HeapEntryLater`: by due time, then by insertion. -/
def HeapEntry.later (left right : HeapEntry) : Bool :=
  if left.dueUtc = right.dueUtc then left.sequence > right.sequence else left.dueUtc > right.dueUtc

/-- The members of `PendingCopyScheduler` that change. `heap` lists the priority
queue in the order it pops; `alive` tells whether the worker thread runs. -/
structure Memory where
  heap : List HeapEntry := []
  sequence : ℕ := 0
  paused : Bool := false
  stopRequested : Bool := false
  joinable : Bool := false
  alive : Bool := false
  deriving DecidableEq, Repr

/-- `heap_.push(HeapEntry{due, ++sequence_, path})`. -/
def Memory.push (m : Memory) (relativePath : WString) (dueUtc : ℤ) : Memory :=
  { m with
    heap := m.heap.orderedInsert (fun a b => a.later b = false) ⟨dueUtc, m.sequence + 1, relativePath⟩
    sequence := m.sequence + 1 }

def Memory.pushAll (m : Memory) (jobs : List PendingJob) : Memory :=
  jobs.foldl (fun m job => m.push job.relativePath (floorToSeconds job.dueUtc)) m

/-- Accesses to the memory, each atomic. -/
inductive MemoryCall
  | loadPaused
  | exchangePaused (paused : Bool)
  | loadStopRequested
  | storeStopRequested (stop : Bool)
  /-- `compare_exchange_strong(expected, desired)`. -/
  | compareExchangeStop (expected desired : Bool)
  | joinable
  | spawn
  | join
  | exit
  | push (relativePath : WString) (dueUtc : ℤ)
  | pushAll (jobs : List PendingJob)
  /-- Look at the top of the heap and pop it when it is due; `none` when the worker
  has to wait. -/
  | popDue
  | now

def MemoryCall.Answer : MemoryCall → Type
  | loadPaused | exchangePaused _ | loadStopRequested | compareExchangeStop _ _ | joinable => Bool
  | popDue => Option HeapEntry
  | now => ℤ
  | _ => Unit

/-- The top of the heap when it is due, and the heap without it. -/
def Memory.popDue (m : Memory) (clock : ℤ) : Option HeapEntry × Memory :=
  match m.heap with
  | [] => (none, m)
  | next :: rest => if next.dueUtc > clock then (none, m) else (some next, { m with heap := rest })

def MemoryCall.run (m : Memory) (clock : ℤ) : (a : MemoryCall) → a.Answer × Memory
  | loadPaused => (m.paused, m)
  | exchangePaused paused => (m.paused, { m with paused })
  | loadStopRequested => (m.stopRequested, m)
  | storeStopRequested stop => ((), { m with stopRequested := stop })
  | compareExchangeStop expected desired =>
    if m.stopRequested = expected then (true, { m with stopRequested := desired }) else (false, m)
  | joinable => (m.joinable, m)
  | spawn => ((), { m with joinable := true, alive := true })
  | join => ((), { m with joinable := false })
  | exit => ((), { m with alive := false })
  | push relativePath dueUtc => ((), m.push relativePath dueUtc)
  | pushAll jobs => ((), m.pushAll jobs)
  | popDue => m.popDue clock
  | now => (clock, m)

/-- `join` waits for the worker; every other access is possible at once. -/
def MemoryCall.Enabled (m : Memory) : MemoryCall → Prop
  | join => m.alive = false
  | _ => True

instance (m : Memory) (a : MemoryCall) : Decidable (a.Enabled m) :=
  match a with
  | .join => inferInstanceAs (Decidable (_ = _))
  | .loadPaused | .exchangePaused _ | .loadStopRequested | .storeStopRequested _
  | .compareExchangeStop _ _ | .joinable | .spawn | .exit | .push _ _ | .pushAll _ | .popDue | .now =>
    .isTrue trivial

/-! ## Calls -/

/-- One atomic call. Engine calls also name the relative path they are about. -/
inductive Call
  | update (u : Update)
  | query (q : Query)
  | copyAndHash (relativePath source cache : WString) (compareHash : Bool)
  | removeCachedFile (relativePath cache : WString)
  | freeBytes (root : WString)
  | memory (a : MemoryCall)

def Call.Answer : Call → Type
  | update _ => Unit
  | query q => q.Answer
  | copyAndHash _ _ _ _ => CopyResult
  | removeCachedFile _ _ => RemoveResult
  | freeBytes _ => Option UInt64
  | memory a => a.Answer

def calls : Sig := ⟨Call, Call.Answer⟩

/-- Programs of the service; exceptions carry `what()`. -/
abbrev Task (α : Type) : Type := Prog calls String α

def update (u : Update) : Task Unit := Prog.perform (S := calls) (.update u)

def query (q : Query) : Task q.Answer := Prog.perform (S := calls) (.query q)

def memory (a : MemoryCall) : Task a.Answer := Prog.perform (S := calls) (.memory a)

variable {V : Type}

/-- The database, the cache volume, the scheduler's memory and the clock. -/
structure World (V : Type) where
  index : CacheIndex := {}
  volume : V
  memory : Memory := {}
  clock : ℤ

/-- What a call does, and what it answers. -/
def exec (sv : Service V) (w : World V) : (a : Call) → Except String a.Answer → World V → Prop
  | .update u, .ok (), w' => ∃ ix, u.apply w.index = .ok ix ∧ w' = { w with index := ix }
  | .update u, .error _, w' => ∃ ix, u.Fails w.index ix ∧ w' = { w with index := ix }
  | .query q, .ok r, w' => q.Answers w.index w.clock r ∧ w' = w
  | .query _, .error _, w' => w' = w
  | .copyAndHash _ source cache compareHash, r, w' =>
    ∃ v, sv.platform.copyAndHash w.volume source cache compareHash w.memory.stopRequested r v ∧
      w' = { w with volume := v }
  | .removeCachedFile _ cache, r, w' =>
    ∃ v, sv.platform.removeCachedFile w.volume cache r v ∧ w' = { w with volume := v }
  | .freeBytes root, r, w' => sv.platform.freeBytes w.volume root r ∧ w' = w
  | .memory a, .ok r, w' =>
    a.Enabled w.memory ∧ (r, w'.memory) = a.run w.memory w.clock ∧
      w' = { w with memory := w'.memory }
  | .memory _, .error _, _ => False

end SsdCache
