import SsdCache.Spec.IndexOpen
import SsdCache.Spec.PathMapper

/-!
# Opening the index, all or nothing

A statement that fails leaves `db_` set, so that the next open does nothing; an open that fails
calls `close` with the mutex held.

* `leads_initializeSchema`: from an older version, an `initialize_schema` that returns has
  completed the schema.
* `openIndex_traces`: how an open ends.
* `open_allOrNothing_iff`: **an open is all or nothing if and only if** no call of SQLite
  fails.
-/

namespace SsdCache

open Atomic Prog

variable {w w' m : IndexWorld} {tr : List (indexCalls.Answered String)}

/-! ## Schemas -/

/-- The table is there with these columns. -/
def HasColumns (table : String) (names : List String) (w : IndexWorld) : Prop :=
  ∃ columns, w.schema.tables table = some columns ∧ names ⊆ columns

/-- The table is missing, or has the columns of its first version. -/
def OlderTable (table : String) (first : List Column) (schema : Schema) : Prop :=
  ∀ columns, schema.tables table = some columns → first.map Column.name ⊆ columns

/-- A database of some version, or a new one. -/
structure Schema.Older (schema : Schema) : Prop where
  files : OlderTable "files" firstFilesColumns schema
  pendingJobs : OlderTable "pending_jobs" firstPendingJobsColumns schema

/-- Every table, column and index is there. -/
structure Schema.Complete (schema : Schema) : Prop where
  files : ∃ columns, schema.tables "files" = some columns ∧
    filesColumns.map Column.name ⊆ columns
  pendingJobs : ∃ columns, schema.tables "pending_jobs" = some columns ∧
    pendingJobsColumns.map Column.name ⊆ columns
  dueIndex : schema.indexes "pending_jobs_due_utc_idx" = true

theorem Schema.Complete.older {schema : Schema} (h : schema.Complete) : schema.Older where
  files columns hcolumns := by
    obtain ⟨columns', hcolumns', hsub⟩ := h.files
    obtain rfl : columns' = columns := Option.some.inj (hcolumns'.symm.trans hcolumns)
    exact List.Subset.trans (by decide) hsub
  pendingJobs columns hcolumns := by
    obtain ⟨columns', hcolumns', hsub⟩ := h.pendingJobs
    obtain rfl : columns' = columns := Option.some.inj (hcolumns'.symm.trans hcolumns)
    exact List.Subset.trans (by decide) hsub

theorem Schema.setTable_self (schema : Schema) (table : String) (columns : List String) :
    (schema.setTable table columns).tables table = some columns :=
  if_pos rfl

theorem Schema.setTable_ne (schema : Schema) {table t : String} (columns : List String)
    (h : t ≠ table) : (schema.setTable table columns).tables t = schema.tables t :=
  if_neg h

/-- **No statement drops a column.** -/
theorem Schema.apply_tables (schema : Schema) (statement : SchemaStatement) {t : String}
    {columns : List String} (h : schema.tables t = some columns) :
    ∃ columns', (schema.apply statement).tables t = some columns' ∧ columns ⊆ columns' := by
  cases statement with
  | pragma setting => exact ⟨columns, h, List.Subset.refl _⟩
  | createIndex index table column => exact ⟨columns, h, List.Subset.refl _⟩
  | createTable table created =>
    cases ht : schema.tables table with
    | some old =>
      -- `IF NOT EXISTS`
      simp only [Schema.apply, ht]
      exact ⟨columns, h, List.Subset.refl _⟩
    | none =>
      have hne : t ≠ table := by
        rintro rfl
        rw [ht] at h
        cases h
      simp only [Schema.apply, ht]
      exact ⟨columns, (schema.setTable_ne _ hne).trans h, List.Subset.refl _⟩
  | addColumn table column =>
    cases ht : schema.tables table with
    | none =>
      simp only [Schema.apply, ht]
      exact ⟨columns, h, List.Subset.refl _⟩
    | some old =>
      simp only [Schema.apply, ht]
      by_cases hne : t = table
      · subst hne
        obtain rfl : old = columns := Option.some.inj (ht.symm.trans h)
        exact ⟨_, schema.setTable_self _ _, List.subset_append_left _ _⟩
      · exact ⟨columns, (schema.setTable_ne _ hne).trans h, List.Subset.refl _⟩

/-! ## Statements -/

/-- A statement, or a query of the columns. -/
def OnSchema : IndexCall → Prop
  | .exec _ | .tableInfo _ => True
  | _ => False

/-- **Such a call** applies a statement, or changes nothing. -/
theorem onSchema_cases {a : IndexCall} {r : Except String a.Answer} (ha : OnSchema a)
    (hdoes : indexExec w a r w') :
    w' = w ∨ ∃ statement, w' = { w with schema := w.schema.apply statement } := by
  cases a with
  | exec statement =>
    cases r with
    | ok v => exact .inr ⟨statement, hdoes.2⟩
    | error e => exact .inl hdoes
  | tableInfo table =>
    cases r with
    | ok v => exact .inl hdoes.2
    | error e => exact .inl hdoes
  | lock | unlock | hasDb | openV2 | closeDb => exact ha.elim

theorem onSchema_keeps_hasColumns {table : String} {names : List String} {a : IndexCall}
    {r : Except String a.Answer} (ha : OnSchema a) (hdoes : indexExec w a r w')
    (h : HasColumns table names w) : HasColumns table names w' := by
  rcases onSchema_cases ha hdoes with rfl | ⟨statement, rfl⟩
  · exact h
  · obtain ⟨columns, hcolumns, hsub⟩ := h
    obtain ⟨columns', hcolumns', hsub'⟩ := w.schema.apply_tables statement hcolumns
    exact ⟨columns', hcolumns', List.Subset.trans hsub hsub'⟩

theorem onSchema_keeps_object {locked db : Bool} {a : IndexCall} {r : Except String a.Answer}
    (ha : OnSchema a) (hdoes : indexExec w a r w') (h : w.locked = locked ∧ w.db = db) :
    w'.locked = locked ∧ w'.db = db := by
  rcases onSchema_cases ha hdoes with rfl | ⟨statement, rfl⟩
  · exact h
  · exact h

/-- Such a call can always fail. -/
theorem onSchema_answers {a : IndexCall} (ha : OnSchema a) (w : IndexWorld) :
    ∃ (r : Except String a.Answer) (w' : IndexWorld), indexExec w a r w' := by
  cases a with
  | exec statement => exact ⟨.error "", w, rfl⟩
  | tableInfo table => exact ⟨.error "", w, rfl⟩
  | lock | unlock | hasDb | openV2 | closeDb => exact ha.elim

theorem addColumnIfMissing_only (table : String) (column : Column) :
    (addColumnIfMissing table column).Only OnSchema := by
  refine Only.bind (Only.bind (only_perform trivial) fun _ => trivial) fun (found : Bool) => ?_
  cases found with
  | true => exact trivial
  | false => exact only_perform trivial

theorem initializeSchema_only : initializeSchema.Only OnSchema := by
  refine Only.bind (only_perform trivial) fun _ => Only.bind (only_perform trivial) fun _ => ?_
  refine Only.bind (addColumnIfMissing_only _ _) fun _ => ?_
  refine Only.bind (addColumnIfMissing_only _ _) fun _ => ?_
  refine Only.bind (addColumnIfMissing_only _ _) fun _ => ?_
  exact Only.bind (addColumnIfMissing_only _ _) fun _ => only_perform trivial

theorem prepareDatabase_only : prepareDatabase.Only OnSchema := by
  refine Only.bind (only_perform trivial) fun _ => Only.bind (only_perform trivial) fun _ => ?_
  refine Only.bind (only_perform trivial) fun _ => Only.bind (only_perform trivial) fun _ => ?_
  exact initializeSchema_only

theorem addColumnIfMissing_rethrows (table : String) (column : Column) :
    (addColumnIfMissing table column).Rethrows := by
  refine Rethrows.bind (Rethrows.bind (rethrows_perform _) fun _ => trivial)
    fun (found : Bool) => ?_
  cases found with
  | true => exact trivial
  | false => exact rethrows_perform _

theorem prepareDatabase_rethrows : prepareDatabase.Rethrows := by
  refine Rethrows.bind (rethrows_perform _) fun _ => Rethrows.bind (rethrows_perform _) fun _ => ?_
  refine Rethrows.bind (rethrows_perform _) fun _ => Rethrows.bind (rethrows_perform _) fun _ => ?_
  refine Rethrows.bind (rethrows_perform _) fun _ => Rethrows.bind (rethrows_perform _) fun _ => ?_
  refine Rethrows.bind (addColumnIfMissing_rethrows _ _) fun _ => ?_
  refine Rethrows.bind (addColumnIfMissing_rethrows _ _) fun _ => ?_
  refine Rethrows.bind (addColumnIfMissing_rethrows _ _) fun _ => ?_
  exact Rethrows.bind (addColumnIfMissing_rethrows _ _) fun _ => rethrows_perform _

/-! ## The schema upgrade -/

theorem keeps_hasColumns {α : Type} {c : IndexTask α} (hc : c.Only OnSchema) (table : String)
    (names : List String) : c.Keeps indexExec (HasColumns table names) :=
  hc.keeps onSchema_keeps_hasColumns

/-- A table is there once it has been created, if it was not already. -/
theorem leads_createTable (table : String) {first columns : List Column} (hsub : first ⊆ columns) :
    (index (.exec (.createTable table columns))).Leads indexExec
      (fun w => OlderTable table first w.schema)
      fun _ => HasColumns table (first.map Column.name) := by
  refine leads_perform fun {w v w'} hdoes holder => ?_
  obtain ⟨-, rfl⟩ := hdoes
  unfold HasColumns
  simp only [Schema.apply]
  cases htable : w.schema.tables table with
  | some old => exact ⟨old, htable, holder old htable⟩
  | none => exact ⟨_, w.schema.setTable_self _ _, List.map_subset _ hsub⟩

/-- The column is there, if this returns. -/
theorem leads_addColumnIfMissing (table : String) (column : Column) (names : List String) :
    (addColumnIfMissing table column).Leads indexExec (HasColumns table names)
      fun _ => HasColumns table (column.name :: names) := by
  refine Leads.bind (I := fun found w => ∃ columns, w.schema.tables table = some columns ∧
    names ⊆ columns ∧ (found = true → column.name ∈ columns)) ?_ fun found => ?_
  · refine Leads.bind (I := fun answer w => HasColumns table names w ∧
      answer = (w.schema.tables table).getD []) ?_ fun answer => ?_
    · refine leads_perform fun {w v w'} hdoes hnames => ?_
      obtain ⟨rfl, rfl⟩ := hdoes
      exact ⟨hnames, rfl⟩
    · rintro w tr v w' ⟨-, hv, rfl⟩ ⟨⟨columns, hcolumns, hsub⟩, rfl⟩
      obtain rfl := Except.ok.inj hv
      refine ⟨columns, hcolumns, hsub, fun hfound => ?_⟩
      rw [hcolumns] at hfound
      exact of_decide_eq_true hfound
  · cases found with
    | true =>
      rintro w tr v w' ⟨-, -, rfl⟩ ⟨columns, hcolumns, hsub, hfound⟩
      exact ⟨columns, hcolumns, List.cons_subset.2 ⟨hfound rfl, hsub⟩⟩
    | false =>
      -- the column was not found, and the `ALTER TABLE` appends it
      refine leads_perform fun {w v w'} hdoes hbefore => ?_
      obtain ⟨-, rfl⟩ := hdoes
      obtain ⟨columns, hcolumns, hsub, -⟩ := hbefore
      refine ⟨columns ++ [column.name], ?_, ?_⟩
      · simp only [Schema.apply, hcolumns]
        exact w.schema.setTable_self _ _
      · refine List.cons_subset.2 ⟨List.mem_append_right _ List.mem_cons_self, ?_⟩
        exact List.Subset.trans hsub (List.subset_append_left _ _)

/-- Both tables are there, with these columns. -/
def HasTables (files pendingJobs : List String) (w : IndexWorld) : Prop :=
  HasColumns "files" files w ∧ HasColumns "pending_jobs" pendingJobs w

theorem leads_addToFiles (column : Column) (files pendingJobs : List String) :
    (addColumnIfMissing "files" column).Leads indexExec (HasTables files pendingJobs)
      fun _ => HasTables (column.name :: files) pendingJobs := by
  intro w tr v w' h hbefore
  have hkept := keeps_hasColumns (addColumnIfMissing_only "files" column) "pending_jobs" pendingJobs
  exact ⟨leads_addColumnIfMissing "files" column files h hbefore.1, hkept h hbefore.2⟩

theorem leads_addToPendingJobs (column : Column) (files pendingJobs : List String) :
    (addColumnIfMissing "pending_jobs" column).Leads indexExec (HasTables files pendingJobs)
      fun _ => HasTables files (column.name :: pendingJobs) := by
  intro w tr v w' h hbefore
  have hkept := keeps_hasColumns (addColumnIfMissing_only "pending_jobs" column) "files" files
  exact ⟨hkept h hbefore.1, leads_addColumnIfMissing "pending_jobs" column pendingJobs h hbefore.2⟩

/-- The `CREATE TABLE`s. -/
theorem leads_createFiles :
    (index (.exec (.createTable "files" filesColumns))).Leads indexExec (fun w => w.schema.Older)
      fun _ w => HasColumns "files" (firstFilesColumns.map Column.name) w ∧
        OlderTable "pending_jobs" firstPendingJobsColumns w.schema := by
  intro w tr v w' h holder
  refine ⟨leads_createTable "files" (List.subset_append_left _ _) h holder.files, ?_⟩
  obtain ⟨-, hw⟩ : True ∧ w' = { w with
      schema := w.schema.apply (.createTable "files" filesColumns) } := (traces_perform.1 h).2
  have hother : w'.schema.tables "pending_jobs" = w.schema.tables "pending_jobs" := by
    rw [hw]
    simp only [Schema.apply]
    cases w.schema.tables "files" with
    | some old => rfl
    | none => exact w.schema.setTable_ne _ (by decide)
  intro columns hcolumns
  exact holder.pendingJobs columns (hother.symm.trans hcolumns)

theorem leads_createPendingJobs :
    (index (.exec (.createTable "pending_jobs" pendingJobsColumns))).Leads indexExec
      (fun w => HasColumns "files" (firstFilesColumns.map Column.name) w ∧
        OlderTable "pending_jobs" firstPendingJobsColumns w.schema)
      fun _ => HasTables (firstFilesColumns.map Column.name)
        (firstPendingJobsColumns.map Column.name) := by
  intro w tr v w' h hbefore
  have hkept := keeps_hasColumns (c := index (.exec (.createTable "pending_jobs"
    pendingJobsColumns))) (only_perform trivial) "files" (firstFilesColumns.map Column.name)
  exact ⟨hkept h hbefore.1,
    leads_createTable "pending_jobs" (List.subset_append_left _ _) h hbefore.2⟩

/-- **From an older version**, an upgrade that returns has completed the schema. -/
theorem leads_initializeSchema :
    initializeSchema.Leads indexExec (fun w => w.schema.Older) fun _ w => w.schema.Complete := by
  refine Leads.bind leads_createFiles fun _ => Leads.bind leads_createPendingJobs fun _ => ?_
  refine Leads.bind (leads_addToFiles _ _ _) fun _ => Leads.bind (leads_addToFiles _ _ _) fun _ => ?_
  refine Leads.bind (leads_addToPendingJobs _ _ _) fun _ => ?_
  refine Leads.bind (leads_addToPendingJobs _ _ _) fun _ => ?_
  refine leads_perform fun {w v w'} hdoes htables => ?_
  obtain ⟨-, rfl⟩ := hdoes
  obtain ⟨⟨files, hfiles, hfilesSub⟩, jobs, hjobs, hjobsSub⟩ := htables
  refine ⟨⟨files, hfiles, List.Subset.trans (by decide) hfilesSub⟩,
    ⟨jobs, hjobs, List.Subset.trans (by decide) hjobsSub⟩, ?_⟩
  simp [Schema.apply, dueIndex]

theorem leads_prepareDatabase :
    prepareDatabase.Leads indexExec (fun w => w.schema.Older) fun _ w => w.schema.Complete := by
  have hpragma (setting : String) : (index (.exec (.pragma setting))).Leads indexExec
      (fun w => w.schema.Older) fun _ w => w.schema.Older := by
    refine leads_perform fun {w v w'} hdoes holder => ?_
    obtain ⟨-, rfl⟩ := hdoes
    exact holder
  refine Leads.bind (hpragma _) fun _ => Leads.bind (hpragma _) fun _ => ?_
  refine Leads.bind (hpragma _) fun _ => Leads.bind (hpragma _) fun _ => ?_
  exact leads_initializeSchema

/-! ## What an open asks -/

/-- The calls of SQLite that every open makes; of the others, an `ALTER TABLE` follows a column
that was not found. -/
def preparingSteps : List IndexCall :=
  [.exec (.pragma "journal_mode=WAL"), .exec (.pragma "synchronous=NORMAL"),
    .exec (.pragma "busy_timeout=5000"), .exec (.pragma "foreign_keys=ON"),
    .exec (.createTable "files" filesColumns),
    .exec (.createTable "pending_jobs" pendingJobsColumns),
    .tableInfo "files", .tableInfo "files", .tableInfo "pending_jobs", .tableInfo "pending_jobs",
    .exec dueIndex]

theorem addColumnIfMissing_performs (table : String) (column : Column) :
    (addColumnIfMissing table column).Performs indexExec [.tableInfo table] := by
  have hcolumn : (columnExists table column.name).Performs indexExec [.tableInfo table] :=
    Performs.bind (performs_perform _) fun _ => performs_nil _
  exact Performs.bind hcolumn fun _ => performs_nil _

theorem prepareDatabase_performs : prepareDatabase.Performs indexExec preparingSteps := by
  have hexec (statement : SchemaStatement) :
      (index (.exec statement)).Performs indexExec [.exec statement] := performs_perform _
  refine Performs.bind (hexec _) fun _ => Performs.bind (hexec _) fun _ => ?_
  refine Performs.bind (hexec _) fun _ => Performs.bind (hexec _) fun _ => ?_
  refine Performs.bind (hexec _) fun _ => Performs.bind (hexec _) fun _ => ?_
  refine Performs.bind (addColumnIfMissing_performs "files" _) fun _ => ?_
  refine Performs.bind (addColumnIfMissing_performs "files" _) fun _ => ?_
  refine Performs.bind (addColumnIfMissing_performs "pending_jobs" _) fun _ => ?_
  exact Performs.bind (addColumnIfMissing_performs "pending_jobs" _) fun _ => hexec _

/-! ## How an open ends -/

/-- The call of SQLite fails. -/
def sqliteFails : indexCalls.Answered String → Bool
  | ⟨.openV2 _, .ok (.error _)⟩ | ⟨.exec _, .error _⟩ | ⟨.tableInfo _, .error _⟩ => true
  | _ => false

/-- No call of SQLite fails. -/
def SqliteSucceeds (tr : List (indexCalls.Answered String)) : Prop :=
  ∀ x ∈ tr, sqliteFails x = false

theorem onSchema_fails {x : indexCalls.Answered String} (hx : OnSchema x.1) :
    sqliteFails x = true ↔ ∃ e, x.2 = .error e := by
  obtain ⟨a, r⟩ := x
  cases a with
  | exec statement =>
    cases r with
    | ok v => exact iff_of_false Bool.false_ne_true nofun
    | error e => exact iff_of_true rfl ⟨e, rfl⟩
  | tableInfo table =>
    cases r with
    | ok v => exact iff_of_false Bool.false_ne_true nofun
    | error e => exact iff_of_true rfl ⟨e, rfl⟩
  | lock | unlock | hasDb | openV2 | closeDb => exact hx.elim

/-- **Preparing the database throws** if and only if a call of SQLite fails. -/
theorem prepareDatabase_throws {r : Except String Unit}
    (h : prepareDatabase.Traces indexExec w tr r w') : (∃ e, r = .error e) ↔ ¬ SqliteSucceeds tr := by
  have honly := prepareDatabase_only.traces h
  rw [prepareDatabase_rethrows.traces h]
  unfold SqliteSucceeds
  push Not
  refine exists_congr fun x => and_congr_right fun hx => ?_
  rw [← onSchema_fails (honly x hx), Ne, Bool.not_eq_false]

/-- The mutex is taken and released. -/
theorem locking_traces {body : IndexTask Unit} {r : Except String Unit}
    (h : (locking body).Traces indexExec w tr r w') :
    w.locked = false ∧ ∃ (m : IndexWorld) (tr' : List (indexCalls.Answered String)),
      tr = ⟨.lock, .ok ()⟩ :: (tr' ++ [⟨.unlock, .ok ()⟩]) ∧
      body.Traces indexExec { w with locked := true } tr' r m ∧ w' = { m with locked := false } := by
  rcases traces_perform_bind h with ⟨e, -, -, hthrow⟩ | ⟨v, u, rest, rfl, ⟨hfree, rfl⟩, hrun⟩
  · exact hthrow.elim
  · refine ⟨hfree, ?_⟩
    obtain ⟨r₀, m, tr₁, tr₂, rfl, hbody, hcleanup⟩ := traces_ensuring hrun
    rcases hcleanup with ⟨e, -, hthrow⟩ | ⟨rfl, hunlock⟩
    · exact (traces_perform.1 hthrow).2.elim
    · obtain ⟨rfl, hw⟩ := traces_perform.1 hunlock
      exact ⟨m, tr₁, rfl, hbody, hw⟩

/-- A member that calls another while it holds the mutex does not end. -/
theorem locking_of_locked {α : Type} {body : IndexTask Unit} {f : Unit → IndexTask α}
    {r : Except String α} (hw : w.locked = true) :
    ¬ (Prog.bind (locking body) f).Traces indexExec w tr r w' := by
  intro h
  rcases traces_bind.1 h with ⟨e, -, hbody⟩ | ⟨v, m, tr₁, tr₂, -, hbody, -⟩
  · rw [(locking_traces hbody).1] at hw
    cases hw
  · rw [(locking_traces hbody).1] at hw
    cases hw

variable {sqlitePath : WString}

/-- The index is open, the path cannot be converted, or the database is prepared. -/
inductive OpenOutcome (sqlitePath : WString) (w : IndexWorld) :
    List (indexCalls.Answered String) → Except String Unit → IndexWorld → Prop
  | already (hdb : w.db = true) :
      OpenOutcome sqlitePath w [⟨.hasDb, .ok true⟩] (.ok ()) w
  | badPath {e : String} (hdb : w.db = false) (hpath : wideToUtf8 sqlitePath = .error e) :
      OpenOutcome sqlitePath w [⟨.hasDb, .ok false⟩] (.error e) w
  | opened {path : String} {tr : List (indexCalls.Answered String)} {r : Except String Unit}
      {w' : IndexWorld} (hdb : w.db = false) (hpath : wideToUtf8 sqlitePath = .ok path)
      (hrun : prepareDatabase.Traces indexExec { w with db := true } tr r w') :
      OpenOutcome sqlitePath w (⟨.hasDb, .ok false⟩ :: ⟨.openV2 path, .ok (.ok ())⟩ :: tr) r w'

/-- **How an open ends**: not with a database that could not be opened. -/
theorem openIndex_traces {r : Except String Unit}
    (h : (openIndex sqlitePath).Traces indexExec w tr r w') :
    w.locked = false ∧ ∃ (m : IndexWorld) (tr' : List (indexCalls.Answered String)),
      tr = ⟨.lock, .ok ()⟩ :: (tr' ++ [⟨.unlock, .ok ()⟩]) ∧
      OpenOutcome sqlitePath { w with locked := true } tr' r m ∧ w' = { m with locked := false } := by
  obtain ⟨hfree, m, tr', htr, hbody, hw⟩ := locking_traces h
  refine ⟨hfree, m, tr', htr, ?_, hw⟩
  rcases traces_perform_bind hbody with ⟨e, -, -, hthrow⟩ | ⟨has, u, rest, rfl, ⟨hhas, rfl⟩, hrun⟩
  · exact hthrow.elim
  obtain rfl | rfl := has.eq_false_or_eq_true
  · obtain ⟨rfl, rfl, rfl⟩ := hrun
    exact .already hhas.symm
  · simp only [Bool.false_eq_true, if_false] at hrun
    cases hpath : wideToUtf8 sqlitePath with
    | error e =>
      rw [hpath] at hrun
      obtain ⟨rfl, rfl, rfl⟩ := hrun
      exact .badPath hhas.symm hpath
    | ok path =>
      rw [hpath] at hrun
      rcases traces_perform_bind hrun with ⟨e, -, -, hthrow⟩ | ⟨opened, u, rest, rfl, hu, hrun⟩
      · exact hthrow.elim
      match opened, hu, hrun with
      | .error message, hu, hrun =>
        -- the error path calls `close`, which waits for the mutex of this very call
        obtain rfl := hu
        exact absurd hrun (locking_of_locked rfl)
      | .ok (), hu, hrun =>
        obtain rfl := hu
        exact .opened hhas.symm hpath hrun

/-- A member waits for ever when its body does. -/
theorem locking_blocks {body : IndexTask Unit} (hw : w.locked = false)
    (h : (locking body).Blocks indexExec w tr) :
    ∃ tr', tr = ⟨.lock, .ok ()⟩ :: tr' ∧ body.Blocks indexExec { w with locked := true } tr' := by
  rcases blocks_perform_bind h with ⟨-, hstuck⟩ | ⟨v, m, rest, rfl, ⟨-, rfl⟩, hrun⟩
  · exact (hstuck (.ok ()) _ ⟨hw, rfl⟩).elim
  · refine ⟨rest, rfl, ?_⟩
    rcases blocks_ensuring hrun with hbody | ⟨r, m, tr₁, tr₂, -, -, hunlock⟩
    · exact hbody
    · exfalso
      rcases hunlock with ⟨-, hstuck⟩ | ⟨x, u, rest, -, -, hret⟩
      · exact hstuck (.ok ()) _ rfl
      · cases x with
        | ok v => exact hret
        | error e => exact hret

theorem closeIndex_not_blocks (hw : w.locked = false) : ¬ closeIndex.Blocks indexExec w tr := by
  intro h
  obtain ⟨tr', -, hbody⟩ := locking_blocks hw h
  rcases blocks_perform_bind hbody with ⟨-, hstuck⟩ | ⟨has, m, rest, -, -, hrun⟩
  · exact hstuck (.ok w.db) _ ⟨rfl, rfl⟩
  · cases has with
    | false => exact hrun
    | true =>
      rcases hrun with ⟨-, hstuck⟩ | ⟨x, u, rest, -, -, hret⟩
      · exact hstuck (.ok ()) _ rfl
      · cases x with
        | ok v => exact hret
        | error e => exact hret

/-- **An open that waits for ever** has seen a call of SQLite fail. -/
theorem openIndex_blocks (hw : w.locked = false)
    (h : (openIndex sqlitePath).Blocks indexExec w tr) : ¬ SqliteSucceeds tr := by
  obtain ⟨tr', rfl, hbody⟩ := locking_blocks hw h
  rcases blocks_perform_bind hbody with ⟨-, hstuck⟩ | ⟨has, m, rest, rfl, ⟨-, rfl⟩, hrun⟩
  · exact (hstuck (.ok w.db) _ ⟨rfl, rfl⟩).elim
  obtain rfl | rfl := has.eq_false_or_eq_true
  · exact hrun.elim
  · simp only [Bool.false_eq_true, if_false] at hrun
    cases hpath : wideToUtf8 sqlitePath with
    | error e =>
      rw [hpath] at hrun
      exact hrun.elim
    | ok path =>
      rw [hpath] at hrun
      rcases blocks_perform_bind hrun with ⟨-, hstuck⟩ | ⟨opened, u, rest, rfl, hu, hrun⟩
      · exact (hstuck (.ok (.ok ())) _ rfl).elim
      match opened, hu, hrun with
      | .error message, _, _ =>
        intro hsucceeds
        exact absurd (hsucceeds ⟨.openV2 path, .ok (.error message)⟩ (by simp)) (by simp [sqliteFails])
      | .ok (), _, hrun =>
        -- every statement is answered
        exact (prepareDatabase_only.not_blocks onSchema_answers hrun).elim

/-! ## Attempts -/

/-- What an open should do: all of it, or nothing. -/
structure AllOrNothing (sqlitePath : WString) (w : IndexWorld)
    (tr : List (indexCalls.Answered String)) (r : Except String Unit) (w' : IndexWorld) :
    Prop where
  released : w'.locked = false
  failed : ∀ e, r = .error e → w'.db = false
  again : w.db = false → r = .ok () → ∃ path, wideToUtf8 sqlitePath = .ok path ∧
    (IndexCall.openV2 path :: preparingSteps).Sublist (tr.map Sigma.fst)
  returned : r = .ok () → w'.schema.Complete

/-- Calls of `open` and `close` one after another, with what each has called, the last one
first. -/
inductive Attempted (sqlitePath : WString) (w₀ : IndexWorld) :
    List (List (indexCalls.Answered String)) → IndexWorld → Prop
  | nil : Attempted sqlitePath w₀ [] w₀
  | opened {trs : List (List (indexCalls.Answered String))} {w : IndexWorld}
      {tr : List (indexCalls.Answered String)} {r : Except String Unit} {w' : IndexWorld}
      (h : Attempted sqlitePath w₀ trs w)
      (hopen : (openIndex sqlitePath).Traces indexExec w tr r w') :
      Attempted sqlitePath w₀ (tr :: trs) w'
  | closed {trs : List (List (indexCalls.Answered String))} {w : IndexWorld}
      {tr : List (indexCalls.Answered String)} {r : Except String Unit} {w' : IndexWorld}
      (h : Attempted sqlitePath w₀ trs w) (hclose : closeIndex.Traces indexExec w tr r w') :
      Attempted sqlitePath w₀ (tr :: trs) w'

/-- Between attempts: an index that is open has its schema. -/
structure Sound (w : IndexWorld) : Prop where
  released : w.locked = false
  older : w.schema.Older
  opened : w.db = true → w.schema.Complete

theorem SqliteSucceeds.append {tr tr' : List (indexCalls.Answered String)} :
    SqliteSucceeds (tr ++ tr') ↔ SqliteSucceeds tr ∧ SqliteSucceeds tr' :=
  List.forall_mem_append

/-- **One open**: it is all or nothing if and only if no call of SQLite fails, and then the
index is sound. -/
theorem Sound.openIndex {r : Except String Unit} (hw : Sound w)
    (h : (openIndex sqlitePath).Traces indexExec w tr r w') :
    (AllOrNothing sqlitePath w tr r w' ↔ SqliteSucceeds tr) ∧ (SqliteSucceeds tr → Sound w') := by
  obtain ⟨-, m, tr', rfl, houtcome, rfl⟩ := openIndex_traces h
  cases houtcome with
  | already hdb =>
    have hsucceeds : SqliteSucceeds [⟨.lock, .ok ()⟩, ⟨.hasDb, .ok true⟩, ⟨.unlock, .ok ()⟩] := by
      unfold SqliteSucceeds
      decide
    refine ⟨iff_of_true ⟨rfl, nofun, fun hclosed => ?_, fun _ => hw.opened hdb⟩ hsucceeds,
      fun _ => ⟨rfl, hw.older, hw.opened⟩⟩
    rw [show w.db = true from hdb] at hclosed
    cases hclosed
  | @badPath e hdb hpath =>
    have hsucceeds : SqliteSucceeds [⟨.lock, .ok ()⟩, ⟨.hasDb, .ok false⟩, ⟨.unlock, .ok ()⟩] := by
      unfold SqliteSucceeds
      decide
    exact ⟨iff_of_true ⟨rfl, fun _ _ => hdb, nofun, nofun⟩ hsucceeds,
      fun _ => ⟨rfl, hw.older, hw.opened⟩⟩
  | @opened path tr r m hdb hpath hrun =>
    have hsucceeds : SqliteSucceeds (⟨.lock, .ok ()⟩ :: ((⟨.hasDb, .ok false⟩ ::
        ⟨.openV2 path, .ok (.ok ())⟩ :: tr) ++ [⟨.unlock, .ok ()⟩])) ↔ SqliteSucceeds tr := by
      simp [SqliteSucceeds, sqliteFails, or_imp, forall_and]
    rw [hsucceeds]
    have hkeeps : prepareDatabase.Keeps indexExec fun w => w.locked = true ∧ w.db = true :=
      prepareDatabase_only.keeps onSchema_keeps_object
    have hobject : m.locked = true ∧ m.db = true := hkeeps hrun ⟨rfl, rfl⟩
    cases r with
    | error e =>
      have hfails : ¬ SqliteSucceeds tr := (prepareDatabase_throws hrun).1 ⟨e, rfl⟩
      -- the exception has left `db_` set
      refine ⟨iff_of_false (fun hall => ?_) hfails, fun hs => absurd hs hfails⟩
      have hdb : m.db = false := hall.failed e rfl
      rw [hobject.2] at hdb
      cases hdb
    | ok v =>
      have hsteps : SqliteSucceeds tr := by
        by_contra hfails
        obtain ⟨e, he⟩ := (prepareDatabase_throws hrun).2 hfails
        cases he
      have hcomplete : m.schema.Complete := leads_prepareDatabase hrun hw.older
      refine ⟨iff_of_true ⟨rfl, nofun, fun _ _ => ⟨path, hpath, ?_⟩, fun _ => hcomplete⟩ hsteps,
        fun _ => ⟨rfl, hcomplete.older, fun _ => hcomplete⟩⟩
      have hperformed : preparingSteps.Sublist
          ((tr ++ [⟨.unlock, .ok ()⟩] : List (indexCalls.Answered String)).map Sigma.fst) := by
        exact (prepareDatabase_performs hrun).trans ((List.sublist_append_left tr _).map Sigma.fst)
      exact ((hperformed.cons_cons _).cons _).cons _

theorem Sound.closeIndex {r : Except String Unit} (hw : Sound w)
    (h : closeIndex.Traces indexExec w tr r w') : Sound w' := by
  obtain ⟨-, m, tr', rfl, hbody, rfl⟩ := locking_traces h
  rcases traces_perform_bind hbody with ⟨e, -, -, hthrow⟩ | ⟨has, u, rest, -, ⟨-, rfl⟩, hrun⟩
  · exact hthrow.elim
  cases has with
  | false =>
    obtain ⟨-, -, rfl⟩ := hrun
    exact ⟨rfl, hw.older, hw.opened⟩
  | true =>
    have hclosed := (traces_perform.1 hrun).2
    cases r with
    | ok v =>
      obtain rfl := hclosed
      exact ⟨rfl, hw.older, nofun⟩
    | error e => exact hclosed.elim

/-- **Whatever was attempted**, the index is sound as long as no call of SQLite has failed. -/
theorem Attempted.sound {w₀ : IndexWorld} {trs : List (List (indexCalls.Answered String))}
    (h : Attempted sqlitePath w₀ trs w) (hw₀ : Sound w₀)
    (hsucceeds : ∀ tr ∈ trs, SqliteSucceeds tr) : Sound w := by
  induction h with
  | nil => exact hw₀
  | opened h hopen ih =>
    obtain ⟨htr, htrs⟩ := List.forall_mem_cons.1 hsucceeds
    exact ((ih htrs).openIndex hopen).2 htr
  | closed h hclose ih => exact (ih (List.forall_mem_cons.1 hsucceeds).2).closeIndex hclose

/-- **An open is all or nothing if and only if** no call of SQLite fails, as long as none has
failed; otherwise it throws with `db_` set, or does not end. -/
theorem open_allOrNothing_iff {w₀ : IndexWorld}
    {trs : List (List (indexCalls.Answered String))} (h : Attempted sqlitePath w₀ trs w)
    (hclosed : w₀.db = false ∧ w₀.locked = false) (holder : w₀.schema.Older)
    (hsucceeds : ∀ tr ∈ trs, SqliteSucceeds tr) :
    (∀ tr r w', (openIndex sqlitePath).Traces indexExec w tr r w' →
      (AllOrNothing sqlitePath w tr r w' ↔ SqliteSucceeds tr)) ∧
    (∀ tr, (openIndex sqlitePath).Blocks indexExec w tr → ¬ SqliteSucceeds tr) ∧
    ∀ tr, ¬ closeIndex.Blocks indexExec w tr := by
  have hw₀ : Sound w₀ := ⟨hclosed.2, holder, fun hdb => absurd (hclosed.1.symm.trans hdb) nofun⟩
  have hw : Sound w := h.sound hw₀ hsucceeds
  exact ⟨fun tr r w' hopen => (hw.openIndex hopen).1, fun tr => openIndex_blocks hw.released,
    fun tr => closeIndex_not_blocks hw.released⟩

/-- A SQLite where every statement that can succeed does. -/
def scriptedIndex (w : IndexWorld) :
    (a : indexCalls.Act) → Option (Except String (indexCalls.Resp a) × IndexWorld)
  | .lock => if w.locked = false then some (.ok (), { w with locked := true }) else none
  | .unlock => some (.ok (), { w with locked := false })
  | .hasDb => some (.ok w.db, w)
  | .openV2 _ => some (.ok (.ok ()), { w with db := true })
  | .exec statement =>
    if w.schema.Admits statement then
      some (.ok (), { w with schema := w.schema.apply statement })
    else some (.error "SQL logic error", w)
  | .tableInfo table => some (.ok ((w.schema.tables table).getD []), w)
  | .closeDb => some (.ok (), { w with db := false })

theorem scriptedIndex_does {a : indexCalls.Act} {r : Except String (indexCalls.Resp a)}
    (h : scriptedIndex w a = some (r, w')) : indexExec w a r w' := by
  cases a with
  | lock =>
    simp only [scriptedIndex] at h
    split_ifs at h with hfree
    obtain ⟨rfl, rfl⟩ := Prod.mk.inj (Option.some.inj h)
    exact ⟨hfree, rfl⟩
  | exec statement =>
    simp only [scriptedIndex] at h
    split_ifs at h with hadmits
    · obtain ⟨rfl, rfl⟩ := Prod.mk.inj (Option.some.inj h)
      exact ⟨hadmits, rfl⟩
    · obtain ⟨rfl, rfl⟩ := Prod.mk.inj (Option.some.inj h)
      exact rfl
  | hasDb | tableInfo =>
    obtain ⟨rfl, rfl⟩ := Prod.mk.inj (Option.some.inj h)
    exact ⟨rfl, rfl⟩
  | unlock | openV2 | closeDb =>
    obtain ⟨rfl, rfl⟩ := Prod.mk.inj (Option.some.inj h)
    exact rfl

def indexPath : WString := wide "K:\\index.db"

/-- A database of the first version. -/
def firstVersion : Schema where
  tables t :=
    if t = "files" then some (firstFilesColumns.map Column.name)
    else if t = "pending_jobs" then some (firstPendingJobsColumns.map Column.name)
    else none

theorem firstVersion_older : firstVersion.Older where
  files columns h := by
    obtain rfl := Option.some.inj (show some _ = some columns from h)
    exact List.Subset.refl _
  pendingJobs columns h := by
    obtain rfl := Option.some.inj (show some _ = some columns from h)
    exact List.Subset.refl _

instance : Decidable (SqliteSucceeds tr) := inferInstanceAs (Decidable (∀ x ∈ _, _))

/-- A run of the open, with a property that can be computed. -/
theorem exists_open (schema : Schema)
    (p : List (indexCalls.Answered String) × Except String Unit × IndexWorld → Bool)
    (hp : ((openIndex indexPath).transcript scriptedIndex { schema := schema }).any p = true) :
    ∃ tr r w', (openIndex indexPath).Traces indexExec { schema := schema } tr r w' ∧
      p (tr, r, w') = true :=
  Prog.exists_traces (fun h => scriptedIndex_does h) hp

/-- A database of the first version is upgraded. -/
theorem open_firstVersion :
    ∃ tr r w', (openIndex indexPath).Traces indexExec { schema := firstVersion } tr r w' ∧
      SqliteSucceeds tr ∧ AllOrNothing indexPath { schema := firstVersion } tr r w' := by
  obtain ⟨tr, r, w', hopen, hp⟩ := exists_open firstVersion
    (fun y => decide (SqliteSucceeds y.1)) (by decide +kernel)
  have hsucceeds : SqliteSucceeds tr := of_decide_eq_true hp
  have hstart : Attempted indexPath { schema := firstVersion } [] { schema := firstVersion } := .nil
  obtain ⟨hiff, -⟩ := open_allOrNothing_iff hstart ⟨rfl, rfl⟩ firstVersion_older
    (fun _ h => absurd h List.not_mem_nil)
  exact ⟨tr, r, w', hopen, hsucceeds, (hiff tr r w' hopen).2 hsucceeds⟩

/-- A file that is not a database fails the first statement; the next open does nothing, and
returns without a table. A file that cannot be opened blocks. -/
theorem failed_open_stays_open :
    (∃ tr e w tr' w', (openIndex indexPath).Traces indexExec {} tr (.error e) w ∧
      ¬ AllOrNothing indexPath {} tr (.error e) w ∧
      (openIndex indexPath).Traces indexExec w tr' (.ok ()) w' ∧
      w'.schema.tables "files" = none ∧ ¬ AllOrNothing indexPath w tr' (.ok ()) w') ∧
    ∃ tr, (openIndex indexPath).Blocks indexExec {} tr := by
  have hfailed : (openIndex indexPath).Traces indexExec {} _ (.error "file is not a database")
      { db := true } :=
    ⟨.ok (), _, _, rfl, ⟨rfl, rfl⟩, .ok false, _, _, rfl, ⟨rfl, rfl⟩, .ok (.ok ()), _, _, rfl, rfl,
      .error "file is not a database", _, _, rfl, rfl, .ok (), _, _, rfl, rfl, rfl, rfl, rfl⟩
  -- `db_` is set, so there is nothing to do
  have hagain : (openIndex indexPath).Traces indexExec { db := true } _ (.ok ()) { db := true } :=
    ⟨.ok (), _, _, rfl, ⟨rfl, rfl⟩, .ok true, _, _, rfl, ⟨rfl, rfl⟩, .ok (), _, _, rfl, rfl,
      rfl, rfl, rfl⟩
  refine ⟨⟨_, _, _, _, _, hfailed, fun hall => ?_, hagain, rfl, fun hall => ?_⟩, ?_⟩
  · exact Bool.noConfusion (hall.failed _ rfl)
  · obtain ⟨columns, hcolumns, -⟩ := (hall.returned rfl).files
    cases hcolumns
  · have hlocked (x : Except String Unit) (u : IndexWorld) :
        ¬ indexExec { locked := true } .lock x u := by
      cases x with
      | ok v => exact fun h => Bool.noConfusion h.1
      | error e => exact id
    exact ⟨_, .inr ⟨.ok (), _, _, rfl, ⟨rfl, rfl⟩, .inr ⟨.ok false, _, _, rfl, ⟨rfl, rfl⟩,
      .inr ⟨.ok (.error none), _, _, rfl, rfl, .inl ⟨rfl, hlocked⟩⟩⟩⟩⟩

end SsdCache
