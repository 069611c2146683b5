import SsdCache.Proof.Index
import SsdCache.Proof.Time
import SsdCache.Proof.Utf

/-!
# What the queries answer

* `IsDueJobs.job`: a job of a batch is a row that is due, and no path is there twice.
* `IsDueJobs.mem_of_count`: a due row is in the batch when no more rows than the limit
  are due as early.
* `IsLoadPendingJobs.mem`, `mem_loadRecordPaths`: the other lists are complete.
* `IsCachedFilesByLastAccess.byLastAccess`, `ByLastAccess.eq`: the cached files are answered in
  the order of their last access, which leaves nothing open.
-/

namespace SsdCache

open Sql

namespace CacheIndex

variable {ix : CacheIndex} {clock nowUtc limit : ℤ} {jobs : List PendingJob} {p : WString}
variable {row : JobRow}

theorem pendingJob_eq (ix : CacheIndex) (clock : ℤ) (p : WString) :
    ix.pendingJob clock p = (ix.job p).map fun row => readPendingJob clock (p, row) := rfl

/-- The due time of a job is that of its row, or the clock if the text does not parse. -/
theorem readPendingJob_dueUtc (clock : ℤ) (x : WString × JobRow) :
    (readPendingJob clock x).dueUtc = (parseUtc x.2.dueUtc).getD clock := rfl

/-- A job of the batch is a due row. -/
theorem IsDueJobs.job (h : ix.IsDueJobs clock nowUtc limit jobs) {j : PendingJob} (hj : j ∈ jobs) :
    ∃ row, ix.job j.relativePath = some row ∧ row.dueUtc ≤ formatUtc nowUtc ∧
      j = readPendingJob clock (j.relativePath, row) := by
  obtain ⟨l, hl, rfl⟩ := h
  obtain ⟨⟨p, row⟩, hm, rfl⟩ := List.mem_map.1 hj
  obtain ⟨hrow, hdue⟩ := hl.mem hm
  exact ⟨row, hrow, of_decide_eq_true hdue, rfl⟩

/-- A job of the batch has a file row. -/
theorem IsDueJobs.status (h : ix.IsDueJobs clock nowUtc limit jobs) {j : PendingJob} (hj : j ∈ jobs) :
    ix.status j.relativePath ≠ none := by
  obtain ⟨row, hrow, -⟩ := h.job hj
  exact status_of_job (by rw [hrow]; exact Option.some_ne_none _)

/-- No path is in a batch twice. -/
theorem IsDueJobs.nodup (h : ix.IsDueJobs clock nowUtc limit jobs) :
    (jobs.map (·.relativePath)).Nodup := by
  obtain ⟨l, hl, rfl⟩ := h
  rw [List.map_map]
  exact hl.nodup

/-- Whether a batch is empty is not left open. -/
theorem IsDueJobs.eq_nil (h : ix.IsDueJobs clock nowUtc limit jobs)
    (hnone : ix.dueJobs clock nowUtc limit = []) : jobs = [] := by
  obtain ⟨l, hl, rfl⟩ := h
  have hselect : select (fun row => row.2.dueUtc ≤ formatUtc nowUtc) (fun row => row.2.dueUtc) limit
      ix.pendingJobs = [] := List.map_eq_nil_iff.1 hnone
  have hlength : l.length = 0 := by rw [hl.length_eq, hselect, List.length_nil]
  rw [List.length_eq_zero_iff.1 hlength, List.map_nil]

/-- The rows due at or before a row. -/
def dueBefore (ix : CacheIndex) (due : Text) : ℕ :=
  (rows ix.pendingJobs).countP fun row => row.2.dueUtc ≤ due

/-- **A due row is in every batch** that is at least as large as the number of rows due
at or before it. -/
theorem IsDueJobs.mem_of_count (h : ix.IsDueJobs clock nowUtc limit jobs) (hrow : ix.job p = some row)
    (hdue : row.dueUtc ≤ formatUtc nowUtc) (hcount : ix.dueBefore row.dueUtc ≤ limit) :
    readPendingJob clock (p, row) ∈ jobs := by
  obtain ⟨l, hl, rfl⟩ := h
  refine List.mem_map.2 ⟨(p, row), hl.mem_of_count hrow (decide_eq_true hdue) ?_, rfl⟩
  -- a row that sorts at or before this one is due, so the filter counts nothing away
  have hle : ((rows ix.pendingJobs).filter fun r => decide (r.2.dueUtc ≤ formatUtc nowUtc)).countP
      (fun r => decide (r.2.dueUtc ≤ row.dueUtc)) ≤ ix.dueBefore row.dueUtc :=
    (List.filter_sublist).countP_le
  exact_mod_cast (Nat.cast_le.2 hle).trans hcount

/-- `load_pending_jobs` answers every row. -/
theorem IsLoadPendingJobs.mem (h : ix.IsLoadPendingJobs clock jobs) (hrow : ix.job p = some row) :
    readPendingJob clock (p, row) ∈ jobs := by
  obtain ⟨l, hl, rfl⟩ := h
  exact List.mem_map.2 ⟨(p, row), hl.mem_of_neg (by omega) hrow rfl, rfl⟩

/-- `load_record_paths` answers every path that has a record. -/
theorem mem_loadRecordPaths : p ∈ ix.loadRecordPaths ↔ ix.status p ≠ none := by
  rw [loadRecordPaths, (List.perm_insertionSort _ _).mem_iff, ← mem_files, mem_iff_lookup]
  simp only [List.mem_map, Prod.exists, exists_and_right, exists_eq_right, mem_rows]

/-! ## The order of last access -/

/-- `files` are the files that are in the cache according to their rows, each of them once,
in the order of their last access, files of the same second in the order of their paths. -/
structure ByLastAccess (ix : CacheIndex) (files : List CachedFileRef) : Prop where
  once : (files.map (·.relativePath)).Nodup
  present (file : CachedFileRef) : file ∈ files ↔
    ∃ row, ix.files.lookup file.relativePath = some row ∧ row.cachePresent = true ∧
      file.cachedSizeBytes = row.cachedSizeBytes.getD 0
  ordered : files.Pairwise fun file next => ∀ row ∈ ix.files.lookup file.relativePath,
    ∀ row' ∈ ix.files.lookup next.relativePath, row.lastSeenUtc < row'.lastSeenUtc ∨
      row.lastSeenUtc = row'.lastSeenUtc ∧ codePoints file.relativePath < codePoints next.relativePath

/-- **The query answers the cached files by their last access.** -/
theorem IsCachedFilesByLastAccess.byLastAccess {files : List CachedFileRef}
    (h : ix.IsCachedFilesByLastAccess files) : ix.ByLastAccess files := by
  obtain ⟨l, hl, rfl⟩ := h
  have honce : (l.map Prod.fst).Nodup := hl.nodup
  refine ⟨by rw [List.map_map]; exact honce, fun file => ⟨fun hfile => ?_, ?_⟩, ?_⟩
  · obtain ⟨⟨p, row⟩, hm, rfl⟩ := List.mem_map.1 hfile
    obtain ⟨hrow, hpresent⟩ := hl.mem hm
    exact ⟨row, hrow, hpresent, rfl⟩
  · rintro ⟨row, hrow, hpresent, hsize⟩
    have hm : (file.relativePath, row) ∈ l := hl.mem_of_neg (by omega) hrow hpresent
    refine List.mem_map.2 ⟨_, hm, ?_⟩
    rw [readCachedFile, ← hsize]
  · rw [List.pairwise_map]
    have hsorted := hl.pairwise
    have hne : l.Pairwise fun x y => x.1 ≠ y.1 := List.pairwise_map.1 honce
    refine (hsorted.and hne).imp_of_mem ?_
    rintro ⟨p, a⟩ ⟨q, b⟩ hp hq ⟨hle, hpq⟩ a' ha' b' hb'
    obtain rfl : a = a' := Option.some.inj ((hl.mem hp).1.symm.trans ha')
    obtain rfl : b = b' := Option.some.inj ((hl.mem hq).1.symm.trans hb')
    rcases Prod.Lex.le_iff.1 hle with hlt | ⟨heq, hpoints⟩
    · exact .inl hlt
    · exact .inr ⟨heq, lt_of_le_of_ne hpoints fun hsame => hpq (codePoints_injective hsame)⟩

/-- **There is one such order.** -/
theorem ByLastAccess.eq {files files' : List CachedFileRef} (h : ix.ByLastAccess files)
    (h' : ix.ByLastAccess files') : files = files' := by
  have hperm : files.Perm files' :=
    (List.perm_ext_iff_of_nodup h.once.of_map h'.once.of_map).2 fun file =>
      (h.present file).trans (h'.present file).symm
  refine hperm.eq_of_pairwise ?_ h.ordered h'.ordered
  intro file next hfile hnext hlt hgt
  obtain ⟨row, hrow, -⟩ := (h.present file).1 hfile
  obtain ⟨row', hrow', -⟩ := (h'.present next).1 hnext
  rcases hlt row hrow row' hrow' with hlt | ⟨heq, hlt⟩
  · rcases hgt row' hrow' row hrow with hgt | ⟨heq', -⟩
    · exact absurd hgt hlt.asymm
    · exact absurd heq' hlt.ne'
  · rcases hgt row' hrow' row hrow with hgt | ⟨-, hgt⟩
    · exact absurd heq.symm hgt.ne
    · exact absurd hgt hlt.asymm

theorem byLastAccess (ix : CacheIndex) : ix.ByLastAccess ix.cachedFilesByLastAccess :=
  IsCachedFilesByLastAccess.byLastAccess ⟨_, select_isSelect .., rfl⟩

end CacheIndex

end SsdCache
