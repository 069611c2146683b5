import SsdCache.Atomic.Sum
import SsdCache.Spec.System

/-!
# The index, statement by statement

`CacheIndex` (`cache_index.cpp`) under `Update` and `Query`: the mutex of each process, the
statements and transactions of each method, and SQLite between the processes that open the
database. A transaction of one process sees its own rows; everybody else sees the rows
committed last. Whatever SQLite is asked may fail; a failed statement or commit may also
have rolled the transaction back.
-/

namespace SsdCache

open Atomic Sql

/-- The processes that open the database. -/
inductive Process
  | service
  | freeing
  deriving DecidableEq

def Party.process : Party → Process
  | .worker | .events | .control => .service
  | .freeProcess => .freeing

/-! ## Statements -/

/-- `UPDATE pending_jobs SET retries=retries + 1 WHERE relative_path=?1` -/
def CacheIndex.countRetry (ix : CacheIndex) (relativePath : WString) : CacheIndex :=
  { ix with
    pendingJobs :=
      Sql.update relativePath (fun row => { row with retries := row.retries + 1 }) ix.pendingJobs
    fk := fun p h => ix.fk p (mem_update.1 h) }

/-- The statements that write. -/
inductive Statement
  /-- `INSERT INTO files … ON CONFLICT … DO UPDATE` -/
  | insertFile (event : AccessEvent)
  /-- `INSERT INTO pending_jobs … ON CONFLICT … DO UPDATE`, of an access -/
  | insertJob (event : AccessEvent) (copyDelay : ℤ)
  /-- the same, of a retry -/
  | upsertJob (relativePath : WString) (dueUtc : ℤ) (reason : String)
  /-- `DELETE FROM pending_jobs` -/
  | deleteJob (relativePath : WString)
  /-- `DELETE FROM files` -/
  | deleteFile (relativePath : WString)
  /-- `UPDATE files SET … cache_present=1, last_error=NULL` -/
  | setCached (relativePath : WString) (sourceSizeBytes cachedSizeBytes : UInt64)
      (hashHex : String) (cachedAtUtc : ℤ)
  /-- `UPDATE files SET last_error=?2` -/
  | setError (relativePath : WString) (errorMessage : String)
  /-- `UPDATE pending_jobs SET retries=retries + 1` -/
  | countRetry (relativePath : WString)
  /-- `UPDATE files SET cache_present=0, last_error=NULL` -/
  | clearCached (relativePath : WString)
  deriving DecidableEq

namespace Statement

/-- The path it binds. -/
def path : Statement → WString
  | insertFile event | insertJob event _ => event.relativePath
  | upsertJob relativePath _ _ | deleteJob relativePath | deleteFile relativePath => relativePath
  | setCached relativePath _ _ _ _ | setError relativePath _ => relativePath
  | countRetry relativePath | clearCached relativePath => relativePath

/-- A job row for `relativePath`, which needs its file. -/
def putJob (ix : CacheIndex) (relativePath : WString) (f : Option JobRow → JobRow) :
    Except String CacheIndex :=
  if hp : relativePath ∈ ix.files then
    .ok
      { ix with
        pendingJobs := upsert relativePath f ix.pendingJobs
        fk := by
          intro p h
          rw [mem_upsert] at h
          rcases h with rfl | h
          · exact hp
          · exact ix.fk p h }
  else .error "FOREIGN KEY constraint failed"

/-- What it makes of the tables it sees. -/
def apply (ix : CacheIndex) : Statement → Except String CacheIndex
  | insertFile event =>
    .ok
      { ix with
        files := upsert event.relativePath (CacheIndex.accessFile formatUtc event) ix.files
        fk := fun p h => mem_upsert.2 (.inr (ix.fk p h)) }
  | insertJob event copyDelay =>
    putJob ix event.relativePath (CacheIndex.accessJob formatUtc event copyDelay)
  | upsertJob relativePath dueUtc reason =>
    putJob ix relativePath (CacheIndex.retryJob dueUtc reason)
  | deleteJob relativePath => .ok (ix.removePendingJob relativePath)
  | deleteFile relativePath =>
    if hp : relativePath ∈ ix.pendingJobs then .error "FOREIGN KEY constraint failed"
    else
      .ok
        { ix with
          files := ix.files.erase relativePath
          fk := fun p h => AList.mem_erase.2 ⟨fun he => hp (he ▸ h), ix.fk p h⟩ }
  | setCached relativePath sourceSizeBytes cachedSizeBytes hashHex cachedAtUtc =>
    .ok (ix.markCached relativePath sourceSizeBytes cachedSizeBytes hashHex cachedAtUtc)
  | setError relativePath errorMessage =>
    .ok (ix.updateFile relativePath fun row => { row with lastError := some errorMessage })
  | countRetry relativePath => .ok (ix.countRetry relativePath)
  | clearCached relativePath =>
    .ok (ix.updateFile relativePath fun row => { row with cachePresent := false, lastError := none })

/-- One after the other. -/
def applyAll (ix : CacheIndex) : List Statement → Except String CacheIndex
  | [] => .ok ix
  | statement :: statements =>
    match statement.apply ix with
    | .ok ix' => applyAll ix' statements
    | .error e => .error e

end Statement

/-! ## Calls -/

/-- What a method does, call by call. -/
inductive SqlCall
  /-- `relative_path.empty()` -/
  | isEmpty (relativePath : WString)
  /-- `std::lock_guard lock(mutex_)`, by this thread -/
  | lock (t : Party)
  /-- `~lock_guard` -/
  | unlock
  | requireDb
  /-- prepare a statement and bind its path as UTF-8 -/
  | bindWide (relativePath : WString)
  /-- `BEGIN IMMEDIATE` -/
  | begin
  | commit
  | rollback
  /-- bind the other values and step -/
  | stepDone (statement : Statement)
  /-- step through the rows of a query -/
  | stepRows (q : Query)

abbrev SqlCall.Answer : SqlCall → Type
  | isEmpty _ => Bool
  | stepRows q => q.Answer
  | _ => Unit

/-- A call of a method, or a call that is not about the index. -/
inductive FineCall
  | sql (process : Process) (a : SqlCall)
  | other (a : Call)

abbrev FineCall.Answer : FineCall → Type
  | sql _ a => a.Answer
  | other a => a.Answer

def fineCalls : Sig := ⟨FineCall, FineCall.Answer⟩

abbrev FineTask (α : Type) : Type := Prog fineCalls String α

def sql (process : Process) (a : SqlCall) : FineTask a.Answer :=
  Prog.perform (S := fineCalls) (.sql process a)

variable {V : Type}

/-- The `World` with what SQLite and the mutexes hold. -/
structure FineWorld (V : Type) where
  committed : CacheIndex := {}
  /-- the open write transaction: whose it is, and the tables it sees -/
  transaction : Option (Process × CacheIndex) := none
  /-- who holds `mutex_` of each process -/
  mutex : Process → Option Party := fun _ => none
  /-- `db_` is set -/
  opened : Process → Bool
  volume : V
  memory : Memory := {}
  clock : ℤ

namespace FineWorld

variable (w : FineWorld V) (process : Process)

/-- What everybody sees once nothing is under way. -/
def world : World V := ⟨w.committed, w.volume, w.memory, w.clock⟩

def setMutex (holder : Option Party) : FineWorld V :=
  { w with mutex := Function.update w.mutex process holder }

def InTransaction : Prop := ∃ ix, w.transaction = some (process, ix)

instance : Decidable (w.InTransaction process) :=
  match h : w.transaction with
  | none => .isFalse fun ⟨_, hx⟩ => by rw [h] at hx; cases hx
  | some (owner, ix) =>
    if ho : owner = process then .isTrue ⟨ix, by rw [h, ho]⟩
    else .isFalse fun ⟨_, hx⟩ => by rw [h] at hx; exact ho (congrArg Prod.fst (Option.some.inj hx))

/-- The tables a process sees. -/
def tables : CacheIndex :=
  match w.transaction with
  | some (owner, ix) => if owner = process then ix else w.committed
  | none => w.committed

end FineWorld

/-- What a call of a process does, and what it answers. -/
def SqlCall.Does (w : FineWorld V) (process : Process) :
    (a : SqlCall) → Except String a.Answer → FineWorld V → Prop
  | isEmpty relativePath, .ok empty, w' => empty = decide (relativePath = []) ∧ w' = w
  | lock t, .ok _, w' =>
    w.mutex process = none ∧ w' = w.setMutex process (some t)
  | unlock, .ok _, w' => w' = w.setMutex process none
  | requireDb, .ok _, w' => w.opened process = true ∧ w' = w
  | requireDb, .error e, w' =>
    w.opened process = false ∧ e = "cache index is not open" ∧ w' = w
  | bindWide relativePath, .ok _, w' => wellFormed relativePath = true ∧ w' = w
  | begin, .ok _, w' =>
    -- another transaction, also one of its own, is `SQLITE_BUSY` or an error
    w.transaction = none ∧ w' = { w with transaction := some (process, w.committed) }
  | commit, .ok _, w' =>
    ∃ ix, w.transaction = some (process, ix) ∧ w' = { w with committed := ix, transaction := none }
  | rollback, .ok _, w' => w.InTransaction process ∧ w' = { w with transaction := none }
  | stepDone statement, .ok _, w' =>
    (∃ ix ix', w.transaction = some (process, ix) ∧ statement.apply ix = .ok ix' ∧
      w' = { w with transaction := some (process, ix') }) ∨
    -- on its own a statement is a transaction
    ∃ ix', w.transaction = none ∧ statement.apply w.committed = .ok ix' ∧
      w' = { w with committed := ix' }
  | stepRows q, .ok r, w' => q.Answers (w.tables process) w.clock r ∧ w' = w
  | stepDone _, .error _, w' | commit, .error _, w' =>
    w' = w ∨ w.InTransaction process ∧ w' = { w with transaction := none }
  | bindWide _, .error _, w' | begin, .error _, w' | rollback, .error _, w' => w' = w
  | stepRows _, .error _, w' => w' = w
  | isEmpty _, .error _, _ | lock _, .error _, _ | unlock, .error _, _ => False

/-- The call is not about the index. -/
def Call.OffIndex : Call → Prop
  | update _ | query _ => False
  | _ => True

instance : (a : Call) → Decidable a.OffIndex
  | .update _ | .query _ => .isFalse id
  | .copyAndHash _ _ _ _ | .removeCachedFile _ _ | .freeBytes _ | .memory _ => .isTrue trivial

def fineExec (sv : Service V) (w : FineWorld V) :
    (a : fineCalls.Act) → Except String (fineCalls.Resp a) → FineWorld V → Prop
  | .sql process a, r, w' => a.Does w process r w'
  | .other a, r, w' =>
    a.OffIndex ∧ ∃ u, exec sv w.world a r u ∧ w' = { w with volume := u.volume, memory := u.memory }

/-! ## Methods -/

/-- A method that holds `mutex_` and needs the database. -/
def withDb {α : Type} (t : Party) (body : FineTask α) : FineTask α := do
  sql t.process (.lock t)
  Prog.ensuring (do sql t.process .requireDb; body) (sql t.process .unlock)

def runStatement (process : Process) (statement : Statement) : FineTask Unit := do
  sql process (.bindWide statement.path)
  sql process (.stepDone statement)

def runStatements (process : Process) : List Statement → FineTask Unit
  | [] => pure ()
  | statement :: statements => do
    runStatement process statement
    runStatements process statements

/-- `BEGIN IMMEDIATE`, the statements and `COMMIT` in a `try` whose handler rolls back. -/
def inTransaction (process : Process) (statements : List Statement) : FineTask Unit := do
  sql process .begin
  Prog.tryCatch
    (do
      runStatements process statements
      sql process .commit)
    fun error => do
      sql process .rollback
      .throw error

/-- Nothing to do for the empty path. -/
def unlessEmpty (process : Process) (relativePath : WString) (body : FineTask Unit) :
    FineTask Unit := do
  let empty : Bool ← sql process (.isEmpty relativePath)
  if empty then pure () else body

def accessStatements (event : AccessEvent) (copyDelay : ℤ) : List Statement :=
  if shouldScheduleCopy event.kind then [.insertFile event, .insertJob event copyDelay]
  else [.insertFile event]

/-- The methods that write, as thread `t` calls them. -/
def updateMethod (t : Party) : Update → FineTask Unit
  | .recordAccess event copyDelay =>
    unlessEmpty t.process event.relativePath
      (withDb t (inTransaction t.process (accessStatements event copyDelay)))
  | .upsertPendingJob relativePath dueUtc reason =>
    unlessEmpty t.process relativePath
      (withDb t (runStatement t.process (.upsertJob relativePath dueUtc reason)))
  | .removePendingJob relativePath => withDb t (runStatement t.process (.deleteJob relativePath))
  | .deleteRecord relativePath =>
    withDb t (inTransaction t.process [.deleteJob relativePath, .deleteFile relativePath])
  | .markCached relativePath sourceSizeBytes cachedSizeBytes hashHex cachedAtUtc =>
    withDb t (runStatement t.process
      (.setCached relativePath sourceSizeBytes cachedSizeBytes hashHex cachedAtUtc))
  | .recordError relativePath errorMessage =>
    withDb t do
      runStatement t.process (.setError relativePath errorMessage)
      sql t.process .requireDb
      runStatement t.process (.countRetry relativePath)
  | .markRemoved relativePath =>
    withDb t (inTransaction t.process [.deleteJob relativePath, .clearCached relativePath])

/-- The path a query binds. -/
def Query.bound : Query → Option WString
  | pendingJob relativePath | fileRecord relativePath => some relativePath
  | _ => none

def bindQuery (process : Process) (q : Query) : FineTask Unit :=
  match q.bound with
  | some relativePath => sql process (.bindWide relativePath)
  | none => pure ()

/-- The methods that read. -/
def queryMethod (t : Party) (q : Query) : FineTask q.Answer :=
  withDb t do
    bindQuery t.process q
    sql t.process (.stepRows q)

/-- A call of the service, as thread `t` makes it. -/
def implement (t : Party) : (a : Call) → FineTask a.Answer
  | .update u => updateMethod t u
  | .query q => queryMethod t q
  | .copyAndHash relativePath source cache compareHash =>
    Prog.perform (S := fineCalls) (.other (.copyAndHash relativePath source cache compareHash))
  | .removeCachedFile relativePath cache =>
    Prog.perform (S := fineCalls) (.other (.removeCachedFile relativePath cache))
  | .freeBytes root => Prog.perform (S := fineCalls) (.other (.freeBytes root))
  | .memory a => Prog.perform (S := fineCalls) (.other (.memory a))

/-! ## The systems -/

/-- Who starts an operation. -/
def Operation.party : Operation → Party
  | recordEvent _ => .events
  | runDueOnce _ | workerIteration => .worker
  | free _ _ => .freeProcess
  | start | stop | requestStop | joinWorker | setPaused _ | cleanup _ _ => .control

/-- What a party may start, by the scheduler's memory. -/
abbrev Offer : Type := Party → Memory → Operation → Bool

/-- The parties of the system, each starting its own operations. -/
def offered (offer : Offer) : Menu V := fun t c o =>
  decide (t = o.party) && offer t c.world.memory o

/-- The system, statement by statement. -/
def fineSystem (sv : Service V) (offer : Offer) :
    Machine fineCalls String (FineWorld V) Party Operation where
  body o := (o.body sv).expand (S := calls) (T := fineCalls) (implement o.party)
  menu t c o := t = o.party ∧ offer t c.world.memory o = true
  exec := fineExec sv
  env w w' := ∃ clock, w.clock ≤ clock ∧ w' = { w with clock }

/-- No `ROLLBACK` leaves a transaction open. -/
def RollsBack (w : FineWorld V) : Label fineCalls String Party Operation → Prop
  | .act _ (.sql process .rollback) (.error _) => ¬ w.InTransaction process
  | _ => True

end SsdCache
