import SsdCache.Atomic.Alone
import SsdCache.Spec.Utf

/-!
# Opening the index

`CacheIndex::open`, `close` and `initialize_schema` (`cache_index.cpp`) as programs over the
mutex, the handle `db_` and SQLite. Of the database only the schema matters: its tables with
the names of their columns, and its indexes. A thread that locks a `std::mutex` it holds does
not come back: the lock gets no answer.
-/

namespace SsdCache

open Atomic

/-! ## The database -/

/-- A column and its declaration. -/
structure Column where
  name : String
  declaration : String
  deriving DecidableEq

/-- The statements of `open` and `initialize_schema`. -/
inductive SchemaStatement
  | pragma (setting : String)
  /-- `CREATE TABLE IF NOT EXISTS` -/
  | createTable (table : String) (columns : List Column)
  /-- `ALTER TABLE … ADD COLUMN` -/
  | addColumn (table : String) (column : Column)
  /-- `CREATE INDEX IF NOT EXISTS` -/
  | createIndex (index table column : String)
  deriving DecidableEq

/-- The tables with their columns, and the indexes. -/
structure Schema where
  tables : String → Option (List String) := fun _ => none
  indexes : String → Bool := fun _ => false

namespace Schema

variable (schema : Schema)

def setTable (table : String) (columns : List String) : Schema :=
  { schema with tables := fun t => if t = table then some columns else schema.tables t }

/-- What a statement that succeeds makes of the schema. -/
def apply : SchemaStatement → Schema
  | .pragma _ => schema
  | .createTable table columns =>
    match schema.tables table with
    | some _ => schema
    | none => schema.setTable table (columns.map Column.name)
  | .addColumn table column =>
    match schema.tables table with
    | some columns => schema.setTable table (columns ++ [column.name])
    | none => schema
  | .createIndex index _ _ =>
    { schema with indexes := fun i => i = index || schema.indexes i }

/-- The statement can succeed. -/
def Admits : SchemaStatement → Prop
  | .addColumn table column => ∃ columns ∈ schema.tables table, column.name ∉ columns
  | .createIndex index table column =>
    schema.indexes index = true ∨ ∃ columns ∈ schema.tables table, column ∈ columns
  | _ => True

instance : (statement : SchemaStatement) → Decidable (schema.Admits statement)
  | .pragma _ | .createTable _ _ => inferInstanceAs (Decidable True)
  | .addColumn _ _ => inferInstanceAs (Decidable (∃ columns ∈ _, _))
  | .createIndex _ _ _ => inferInstanceAs (Decidable (_ ∨ ∃ columns ∈ _, _))

end Schema

/-! ## Calls -/

inductive IndexCall
  /-- `std::lock_guard lock(mutex_)` -/
  | lock
  /-- `~lock_guard` -/
  | unlock
  /-- `db_ != nullptr` -/
  | hasDb
  /-- `sqlite3_open_v2` on `db_` -/
  | openV2 (path : String)
  /-- `exec` -/
  | exec (statement : SchemaStatement)
  /-- the rows of `SELECT name FROM pragma_table_info(?1)` -/
  | tableInfo (table : String)
  /-- `sqlite3_close(db_)`, and `db_ = nullptr` -/
  | closeDb
  deriving DecidableEq

namespace IndexCall

/-- An open that fails may have set `db_`: it then has a message. -/
abbrev Answer : IndexCall → Type
  | lock | unlock | exec _ | closeDb => Unit
  | hasDb => Bool
  | openV2 _ => Except (Option String) Unit
  | tableInfo _ => List String

end IndexCall

/-- The object and the database. -/
structure IndexWorld where
  locked : Bool := false
  db : Bool := false
  schema : Schema := {}

/-- What a call does, and what it answers. -/
def IndexCall.Does (w : IndexWorld) :
    (a : IndexCall) → Except String a.Answer → IndexWorld → Prop
  | lock, .ok _, w' => w.locked = false ∧ w' = { w with locked := true }
  | unlock, .ok _, w' => w' = { w with locked := false }
  | hasDb, .ok has, w' => has = w.db ∧ w' = w
  | openV2 _, .ok (.ok _), w' => w' = { w with db := true }
  | openV2 _, .ok (.error message), w' => w' = { w with db := message.isSome }
  | exec statement, .ok _, w' =>
    w.schema.Admits statement ∧ w' = { w with schema := w.schema.apply statement }
  | tableInfo table, .ok names, w' => names = (w.schema.tables table).getD [] ∧ w' = w
  | closeDb, .ok _, w' => w' = { w with db := false }
  -- a statement that fails changes nothing
  | exec _, .error _, w' | tableInfo _, .error _, w' => w' = w
  | _, .error _, _ => False

def indexCalls : Sig where
  Act := IndexCall
  Resp := IndexCall.Answer

def indexExec (w : IndexWorld) (a : indexCalls.Act) (r : Except String (indexCalls.Resp a))
    (w' : IndexWorld) : Prop :=
  IndexCall.Does w a r w'

abbrev IndexTask (α : Type) : Type := Prog indexCalls String α

def index (a : IndexCall) : IndexTask a.Answer := Prog.perform (S := indexCalls) a

/-- A member function that holds `mutex_`. -/
def locking {α : Type} (body : IndexTask α) : IndexTask α := do
  index .lock
  body.ensuring (index .unlock)

/-! ## The schema -/

def requestorPidColumn (name : String) : Column := ⟨name, "INTEGER NOT NULL DEFAULT 0"⟩

def requestorProcessColumn (name : String) : Column := ⟨name, "TEXT NOT NULL DEFAULT ''"⟩

/-- The columns of `files` that every version had. -/
def firstFilesColumns : List Column :=
  [⟨"relative_path", "TEXT PRIMARY KEY"⟩, ⟨"last_seen_utc", "TEXT NOT NULL"⟩,
    ⟨"last_write_close_utc", "TEXT"⟩, ⟨"source_size_bytes", "INTEGER"⟩,
    ⟨"cached_size_bytes", "INTEGER"⟩, ⟨"cached_at_utc", "TEXT"⟩, ⟨"hash_algo", "TEXT"⟩,
    ⟨"hash_hex", "TEXT"⟩, ⟨"hash_at_utc", "TEXT"⟩,
    ⟨"cache_present", "INTEGER NOT NULL DEFAULT 0"⟩, ⟨"last_error", "TEXT"⟩]

def filesColumns : List Column :=
  firstFilesColumns ++
    [requestorPidColumn "last_requestor_pid", requestorProcessColumn "last_requestor_process"]

/-- The columns of `pending_jobs` that every version had; `relative_path` refers to `files`. -/
def firstPendingJobsColumns : List Column :=
  [⟨"relative_path", "TEXT PRIMARY KEY"⟩, ⟨"due_utc", "TEXT NOT NULL"⟩,
    ⟨"reason", "TEXT NOT NULL"⟩, ⟨"retries", "INTEGER NOT NULL DEFAULT 0"⟩]

def pendingJobsColumns : List Column :=
  firstPendingJobsColumns ++
    [requestorPidColumn "requestor_pid", requestorProcessColumn "requestor_process"]

def dueIndex : SchemaStatement :=
  .createIndex "pending_jobs_due_utc_idx" "pending_jobs" "due_utc"

/-! ## Members -/

def columnExists (table column : String) : IndexTask Bool := do
  let names : List String ← index (.tableInfo table)
  return column ∈ names

def addColumnIfMissing (table : String) (column : Column) : IndexTask Unit := do
  let found ← columnExists table column.name
  if !found then index (.exec (.addColumn table column))

def initializeSchema : IndexTask Unit := do
  index (.exec (.createTable "files" filesColumns))
  index (.exec (.createTable "pending_jobs" pendingJobsColumns))
  addColumnIfMissing "files" (requestorPidColumn "last_requestor_pid")
  addColumnIfMissing "files" (requestorProcessColumn "last_requestor_process")
  addColumnIfMissing "pending_jobs" (requestorPidColumn "requestor_pid")
  addColumnIfMissing "pending_jobs" (requestorProcessColumn "requestor_process")
  index (.exec dueIndex)

/-- The settings, and the schema. -/
def prepareDatabase : IndexTask Unit := do
  index (.exec (.pragma "journal_mode=WAL"))
  index (.exec (.pragma "synchronous=NORMAL"))
  index (.exec (.pragma "busy_timeout=5000"))
  index (.exec (.pragma "foreign_keys=ON"))
  initializeSchema

/-- `CacheIndex::close` -/
def closeIndex : IndexTask Unit := locking do
  let has : Bool ← index .hasDb
  if has then index .closeDb

/-- `CacheIndex::open` -/
def openIndex (sqlitePath : WString) : IndexTask Unit := locking do
  let has : Bool ← index .hasDb
  if has then return ()
  else
    match wideToUtf8 sqlitePath with
    | .error error => .throw error
    | .ok path =>
      let opened : Except (Option String) Unit ← index (.openV2 path)
      match opened with
      | .error message => do
        closeIndex
        .throw (message.getD "failed to open sqlite")
      | .ok () => prepareDatabase

end SsdCache
