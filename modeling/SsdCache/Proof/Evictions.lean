import SsdCache.Loop.Scan
import SsdCache.Proof.Passes
import SsdCache.Proof.Queries
import SsdCache.Spec.Replay

/-!
# What an eviction removes

Both eviction loops go over the cached files in the order of their last access until they
have enough (`Loop.Scanned`).

* `evictVictims_traces`, `evictFiles_traces`: the passes of the two loops.
* `removals_rows`: what the removals leave in the index.
* `makeRoomFor_traces`: the calls of `make_room_for`.
* `makeRoomFor_evicts`: its postcondition.
-/

namespace SsdCache

open Atomic Sql Loop

variable {V : Type} {sv : Service V} {w w' : World V} {tr : List Answered} {p q : WString}

/-! ## Removals -/

/-- One removal of an eviction loop, with the engine's answer. -/
structure Removal where
  victim : CachedFileRef
  result : RemoveResult
  deriving DecidableEq

namespace Removal

def call (pathResolver : PathResolver) (x : Removal) : Answered :=
  ⟨.removeCachedFile x.victim.relativePath (pathResolver.cacheAbsolute x.victim.relativePath),
    .ok x.result⟩

def marked (x : Removal) : Answered := ⟨.update (.markRemoved x.victim.relativePath), .ok ()⟩

/-- The index after the removal. -/
def index (ix : CacheIndex) (x : Removal) : CacheIndex :=
  if x.result.Clean then ix.markRemoved x.victim.relativePath else ix

end Removal

/-- A removal of `make_room_for`, with the provider's answer to the query after it. -/
structure Attempt extends Removal where
  updated : Option UInt64 := none
  deriving DecidableEq

namespace Attempt

def calls (sv : Service V) (x : Attempt) : List Answered :=
  x.call sv.pathResolver ::
    if x.result.Clean then [x.marked, ⟨.freeBytes sv.settings.cacheRoot, .ok x.updated⟩] else []

/-- The tracked free space after the removal: the provider's answer, or an estimate. -/
def free (free : UInt64) (x : Attempt) : UInt64 :=
  if x.result.Clean then x.updated.getD (free + x.victim.cachedSizeBytes) else free

end Attempt

/-! ## The loops -/

/-- **The passes of `make_room_for`.** -/
theorem evictVictims_traces {required : UInt64} {victims : List CachedFileRef} {free : UInt64}
    (h : (evictVictims sv p required victims free).Traces (S := calls) (exec sv) w tr (.ok ()) w') :
    ∃ xs : List Attempt,
      Scanned (required ≤ ·) Attempt.free (fun x => x.victim) free
        (victims.filter (·.relativePath ≠ p)) xs ∧
      tr = xs.flatMap (Attempt.calls sv) ∧
      w'.index = (xs.map (·.toRemoval)).foldl Removal.index w.index := by
  induction victims generalizing w tr free with
  | nil =>
    obtain ⟨rfl, -, rfl⟩ := h
    exact ⟨[], .done, rfl, rfl⟩
  | cons victim victims ih =>
    unfold evictVictims at h
    by_cases henough : free ≥ required
    · rw [if_pos henough] at h
      obtain ⟨rfl, -, rfl⟩ := h
      exact ⟨[], .of_enough henough, rfl, rfl⟩
    rw [if_neg henough] at h
    by_cases hp : victim.relativePath = p
    · -- the file about to be cached is passed over
      rw [if_pos hp] at h
      rw [List.filter_cons_of_neg (by simpa using hp)]
      exact ih h
    rw [if_neg hp] at h
    rw [List.filter_cons_of_pos (by simpa using hp)]
    obtain ⟨result, m, rest, rfl, hremove, h⟩ := Prog.traces_perform_ok h
    obtain ⟨v, -, rfl⟩ := hremove
    by_cases hclean : result.Clean
    · rw [if_pos hclean] at h
      obtain ⟨_, m, rest, rfl, ⟨ix, hmarked, rfl⟩, h⟩ := Prog.traces_perform_ok h
      obtain ⟨updated, m, rest, rfl, ⟨-, rfl⟩, h⟩ := Prog.traces_perform_ok h
      cases hmarked
      obtain ⟨xs, hscan, rfl, hindex⟩ := ih h
      let x : Attempt := ⟨⟨victim, result⟩, updated⟩
      have hfree : x.free free = Option.getD updated (free + victim.cachedSizeBytes) := if_pos hclean
      refine ⟨x :: xs, .step (x := x) henough (hfree ▸ hscan), ?_, ?_⟩
      · rw [List.flatMap_cons, Attempt.calls, if_pos hclean]
        rfl
      · rw [hindex, List.map_cons, List.foldl_cons, Removal.index, if_pos hclean]
    · rw [if_neg hclean] at h
      obtain ⟨xs, hscan, rfl, hindex⟩ := ih h
      let x : Attempt := ⟨⟨victim, result⟩, none⟩
      have hfree : x.free free = free := if_neg hclean
      refine ⟨x :: xs, .step (x := x) henough (hfree.symm ▸ hscan), ?_, ?_⟩
      · rw [List.flatMap_cons, Attempt.calls, if_neg hclean]
        rfl
      · rw [hindex, List.map_cons, List.foldl_cons, Removal.index, if_neg hclean]

/-! ## The rows -/

/-- A row after its cache file was removed. -/
def FileRow.removed (row : FileRow) : FileRow := { row with cachePresent := false, lastError := none }

theorem markRemoved_files (ix : CacheIndex) (p q : WString) :
    (ix.markRemoved p).files.lookup q =
      if q = p then (ix.files.lookup q).map FileRow.removed else ix.files.lookup q :=
  lookup_update p q _ _

theorem markRemoved_jobs (ix : CacheIndex) (p q : WString) :
    (ix.markRemoved p).pendingJobs.lookup q = if q = p then none else ix.pendingJobs.lookup q :=
  lookup_erase_eq p q _

/-- One of the removals took the cache file of `q` without error. -/
def Took (xs : List Removal) (q : WString) : Prop :=
  ∃ x ∈ xs, x.result.Clean ∧ x.victim.relativePath = q

theorem took_cons {x : Removal} {xs : List Removal} :
    Took (x :: xs) q ↔ (x.result.Clean ∧ x.victim.relativePath = q) ∨ Took xs q := by
  unfold Took
  simp only [List.mem_cons, exists_eq_or_imp]

theorem index_rows (ix : CacheIndex) (x : Removal) (q : WString) :
    (x.result.Clean ∧ x.victim.relativePath = q →
      (x.index ix).files.lookup q = (ix.files.lookup q).map FileRow.removed ∧
        (x.index ix).pendingJobs.lookup q = none) ∧
    (¬ (x.result.Clean ∧ x.victim.relativePath = q) →
      (x.index ix).files.lookup q = ix.files.lookup q ∧
        (x.index ix).pendingJobs.lookup q = ix.pendingJobs.lookup q) := by
  unfold Removal.index
  split
  · rename_i hclean
    rw [markRemoved_files, markRemoved_jobs]
    constructor
    · rintro ⟨-, rfl⟩
      rw [if_pos rfl, if_pos rfl]
      exact ⟨rfl, rfl⟩
    · intro hne
      have hq : q ≠ x.victim.relativePath := fun heq => hne ⟨hclean, heq.symm⟩
      rw [if_neg hq, if_neg hq]
      exact ⟨rfl, rfl⟩
  · rename_i hclean
    exact ⟨fun htook => absurd htook.1 hclean, fun _ => ⟨rfl, rfl⟩⟩

/-- **What the removals leave**: the taken files' rows are cleared and without a job, and
every other row is as it was. -/
theorem removals_rows (xs : List Removal) (ix : CacheIndex) (q : WString) :
    (Took xs q →
      (xs.foldl Removal.index ix).files.lookup q = (ix.files.lookup q).map FileRow.removed ∧
        (xs.foldl Removal.index ix).pendingJobs.lookup q = none) ∧
    (¬ Took xs q →
      (xs.foldl Removal.index ix).files.lookup q = ix.files.lookup q ∧
        (xs.foldl Removal.index ix).pendingJobs.lookup q = ix.pendingJobs.lookup q) := by
  induction xs generalizing ix with
  | nil =>
    constructor
    · rintro ⟨x, hx, -⟩
      cases hx
    · exact fun _ => ⟨rfl, rfl⟩
  | cons x xs ih =>
    obtain ⟨htaken, hkept⟩ := index_rows ix x q
    obtain ⟨ihtaken, ihkept⟩ := ih (x.index ix)
    rw [List.foldl_cons, took_cons]
    by_cases hrest : Took xs q
    · obtain ⟨hfile, hjob⟩ := ihtaken hrest
      refine ⟨fun _ => ⟨?_, hjob⟩, fun hne => absurd (.inr hrest) hne⟩
      rw [hfile]
      by_cases hx : x.result.Clean ∧ x.victim.relativePath = q
      · rw [(htaken hx).1, Option.map_map]
        rfl
      · rw [(hkept hx).1]
    · obtain ⟨hfile, hjob⟩ := ihkept hrest
      rw [hfile, hjob]
      constructor
      · rintro (hx | hxs)
        · exact htaken hx
        · exact absurd hxs hrest
      · exact fun hne => hkept fun hx => hne (.inl hx)

/-! ## Making room -/

/-- The cached files that may be evicted for `p`. -/
def candidates (files : List CachedFileRef) (p : WString) : List CachedFileRef :=
  files.filter (·.relativePath ≠ p)

/-- The free space that `make_room_for` wants. -/
def requiredFor (sv : Service V) (ix : CacheIndex) (p : WString) : UInt64 :=
  max (((ix.files.lookup p).map (·.sourceSizeBytes)).getD 0) sv.settings.minFreeBytes

/-- The evictions `xs` from tracked free space `free` are as they should be, with the cached
`files` in their order, and left the index `ix'`. -/
structure MadeRoom (sv : Service V) (p : WString) (ix : CacheIndex) (files : List CachedFileRef)
    (free : UInt64) (xs : List Attempt) (ix' : CacheIndex) : Prop where
  /-- The candidates are tried in the order of their last access. -/
  attempted : xs.map (fun x => x.victim) <+: candidates files p
  once : (xs.map (fun x => x.victim.relativePath)).Nodup
  /-- The loop goes on only while the tracked free space is too small. -/
  goesOn : ∀ k < xs.length, (xs.take k).foldl Attempt.free free < requiredFor sv ix p
  stops : requiredFor sv ix p ≤ xs.foldl Attempt.free free ∨
    xs.map (fun x => x.victim) = candidates files p
  removed : ∀ x ∈ xs, x.result.Clean → ∃ row, ix.files.lookup x.victim.relativePath = some row ∧
    ix'.files.lookup x.victim.relativePath = some row.removed ∧
    ix'.pendingJobs.lookup x.victim.relativePath = none
  kept : ∀ q, (∀ x ∈ xs, x.result.Clean → x.victim.relativePath ≠ q) →
    ix'.files.lookup q = ix.files.lookup q ∧ ix'.pendingJobs.lookup q = ix.pendingJobs.lookup q
  /-- The file about to be cached keeps its rows. -/
  own : ix'.files.lookup p = ix.files.lookup p ∧ ix'.pendingJobs.lookup p = ix.pendingJobs.lookup p

/-- Eviction is switched on. -/
def Service.Evicts (sv : Service V) : Prop := sv.freeSpace = true ∧ sv.settings.minFreeBytes ≠ 0

instance (sv : Service V) : Decidable sv.Evicts := inferInstanceAs (Decidable (_ ∧ _))

/-- The calls of `make_room_for`, and what they did; `files` are the cached files. -/
inductive RoomRun (sv : Service V) (p : WString) (w : World V) (files : List CachedFileRef)
    (ix' : CacheIndex) : List Answered → Prop
  | disabled : ¬ sv.Evicts → ix' = w.index → RoomRun sv p w files ix' []
  /-- The first query of the free space fails. -/
  | unknown : sv.Evicts → ix' = w.index →
      RoomRun sv p w files ix' [⟨.query (.fileRecord p), .ok (w.index.fileRecord w.clock p)⟩,
        ⟨.freeBytes sv.settings.cacheRoot, .ok none⟩]
  | enough {free : UInt64} : sv.Evicts → requiredFor sv w.index p ≤ free → ix' = w.index →
      RoomRun sv p w files ix' [⟨.query (.fileRecord p), .ok (w.index.fileRecord w.clock p)⟩,
        ⟨.freeBytes sv.settings.cacheRoot, .ok (some free)⟩]
  | evicts {free : UInt64} {xs : List Attempt} : sv.Evicts → free < requiredFor sv w.index p →
      MadeRoom sv p w.index files free xs ix' →
      RoomRun sv p w files ix' (⟨.query (.fileRecord p), .ok (w.index.fileRecord w.clock p)⟩ ::
        ⟨.freeBytes sv.settings.cacheRoot, .ok (some free)⟩ ::
        ⟨.query .cachedFilesByLastAccess, .ok files⟩ :: xs.flatMap (Attempt.calls sv))

theorem madeRoom_of_scanned {ix ix' : CacheIndex} {files : List CachedFileRef} {free : UInt64}
    {xs : List Attempt} (hfiles : ix.ByLastAccess files)
    (hscan : Scanned (requiredFor sv ix p ≤ ·) Attempt.free (fun x : Attempt => x.victim) free
      (candidates files p) xs)
    (hindex : ix' = (xs.map (·.toRemoval)).foldl Removal.index ix) :
    MadeRoom sv p ix files free xs ix' := by
  have hpaths : ((candidates files p).map (·.relativePath)).Nodup :=
    (List.filter_sublist.map _).nodup hfiles.once
  have htook (q : WString) : Took (xs.map (·.toRemoval)) q ↔
      ∃ x ∈ xs, x.result.Clean ∧ x.victim.relativePath = q := by simp [Took]
  have hkept (q : WString) (hq : ∀ x ∈ xs, x.result.Clean → x.victim.relativePath ≠ q) :
      ix'.files.lookup q = ix.files.lookup q ∧
        ix'.pendingJobs.lookup q = ix.pendingJobs.lookup q := by
    have hnot : ¬ Took (xs.map (·.toRemoval)) q := by
      rw [htook]
      rintro ⟨x, hx, hclean, hpath⟩
      exact hq x hx hclean hpath
    rw [hindex]
    exact (removals_rows (xs.map (·.toRemoval)) ix q).2 hnot
  refine ⟨hscan.isPrefix, ?_, ?_, hscan.met, ?_, hkept, hkept p ?_⟩
  · have honce := (hscan.isPrefix.sublist.map (·.relativePath)).nodup hpaths
    rwa [List.map_map] at honce
  · exact fun k hk => UInt64.not_le.1 (hscan.unmet k hk)
  · intro x hx hclean
    have hmem : x.victim ∈ candidates files p := hscan.isPrefix.subset (List.mem_map_of_mem hx)
    obtain ⟨row, hrow, -⟩ := (hfiles.present x.victim).1 (List.mem_of_mem_filter hmem)
    obtain ⟨hfile, hjob⟩ := (removals_rows (xs.map (·.toRemoval)) ix x.victim.relativePath).1
      ((htook _).2 ⟨x, hx, hclean, rfl⟩)
    rw [← hindex, hrow] at hfile
    rw [← hindex] at hjob
    exact ⟨row, hrow, hfile, hjob⟩
  · intro x hx _
    have hmem : x.victim ∈ candidates files p := hscan.isPrefix.subset (List.mem_map_of_mem hx)
    exact of_decide_eq_true (List.mem_filter.1 hmem).2

/-- The queries that `make_room_for` begins with. -/
def roomQueries (sv : Service V) (w : World V) (p : WString) (answer : Option UInt64) :
    List Answered :=
  [⟨.query (.fileRecord p), .ok (w.index.fileRecord w.clock p)⟩,
    ⟨.freeBytes sv.settings.cacheRoot, .ok answer⟩]

/-- The query for the victims. -/
def victimsQuery (files : List CachedFileRef) : Answered :=
  ⟨.query .cachedFilesByLastAccess, .ok files⟩

/-- **The calls of `make_room_for`.** -/
theorem makeRoomFor_traces {files : List CachedFileRef} (hfiles : w.index.ByLastAccess files)
    (h : (makeRoomFor sv p).Traces (S := calls) (exec sv) w tr (.ok ()) w') :
    (¬ sv.Evicts ∧ w'.index = w.index ∧ tr = []) ∨
    (sv.Evicts ∧ ∃ answer : Option UInt64,
      ((∀ free ∈ answer, requiredFor sv w.index p ≤ free) ∧ w'.index = w.index ∧
        tr = roomQueries sv w p answer) ∨
      ∃ (free : UInt64) (xs : List Attempt), answer = some free ∧
        free < requiredFor sv w.index p ∧
        Scanned (requiredFor sv w.index p ≤ ·) Attempt.free (fun x : Attempt => x.victim) free
          (candidates files p) xs ∧
        w'.index = (xs.map (·.toRemoval)).foldl Removal.index w.index ∧
        tr = roomQueries sv w p answer ++ victimsQuery files :: xs.flatMap (Attempt.calls sv)) := by
  unfold makeRoomFor at h
  by_cases hoff : sv.freeSpace = false ∨ sv.settings.minFreeBytes = 0
  · rw [if_pos hoff] at h
    obtain ⟨rfl, -, rfl⟩ := h
    refine .inl ⟨?_, rfl, rfl⟩
    rintro ⟨hprovider, hmin⟩
    rcases hoff with hoff | hoff
    · rw [hoff] at hprovider
      cases hprovider
    · exact hmin hoff
  rw [if_neg hoff] at h
  push Not at hoff
  have hon : sv.Evicts := ⟨by simpa using hoff.1, hoff.2⟩
  obtain ⟨record, m, rest, rfl, ⟨rfl, rfl⟩, h⟩ := Prog.traces_perform_ok h
  obtain ⟨answer, m, rest, rfl, ⟨-, rfl⟩, h⟩ := Prog.traces_perform_ok h
  have hrequired : max (((m.index.fileRecord m.clock p).map (·.sourceSizeBytes)).getD 0)
      sv.settings.minFreeBytes = requiredFor sv m.index p := by
    unfold requiredFor CacheIndex.fileRecord
    rw [Option.map_map]
    rfl
  refine .inr ⟨hon, answer, ?_⟩
  cases (answer : Option UInt64) with
  | none =>
    obtain ⟨rfl, -, rfl⟩ := h
    exact .inl ⟨fun free hfree => (Option.not_mem_none free hfree).elim, rfl, rfl⟩
  | some free =>
    simp only [hrequired] at h
    by_cases henough : free ≥ requiredFor sv m.index p
    · rw [if_pos henough] at h
      obtain ⟨rfl, -, rfl⟩ := h
      refine .inl ⟨?_, rfl, rfl⟩
      intro free' hfree
      rw [← Option.mem_some.1 hfree]
      exact henough
    · rw [if_neg henough] at h
      obtain ⟨victims, m', rest, rfl, ⟨hvictims, rfl⟩, h⟩ := Prog.traces_perform_ok h
      obtain rfl := (CacheIndex.IsCachedFilesByLastAccess.byLastAccess hvictims).eq hfiles
      obtain ⟨xs, hscan, rfl, hindex⟩ := evictVictims_traces h
      exact .inr ⟨free, xs, rfl, UInt64.not_le.1 henough, hscan, hindex, rfl⟩

/-- **The postcondition of `make_room_for`**, for every answer of the engine and of the
free-space provider. -/
theorem makeRoomFor_evicts {files : List CachedFileRef} (hfiles : w.index.ByLastAccess files)
    (h : (makeRoomFor sv p).Traces (S := calls) (exec sv) w tr (.ok ()) w') :
    RoomRun sv p w files w'.index tr := by
  rcases makeRoomFor_traces hfiles h with ⟨hoff, hindex, rfl⟩ | ⟨hon, answer, hrest⟩
  · exact .disabled hoff hindex
  · rcases hrest with ⟨henough, hindex, rfl⟩ | ⟨free, xs, rfl, hshort, hscan, hindex, rfl⟩
    · cases answer with
      | none => exact .unknown hon hindex
      | some free => exact .enough hon (henough free rfl) hindex
    · exact .evicts hon hshort (madeRoom_of_scanned hfiles hscan hindex)

/-! ## Executing evictions -/

/-- What a program calls on a disk. -/
theorem exists_traces {α : Type} (settings : SchedulerSettings) (c : Task α) (w : World Disk)
    (p : List Answered × Except String α × World Disk → Prop) [DecidablePred p]
    (hp : (c.transcript (S := calls) answer w).any (fun x => decide (p x)) = true) :
    ∃ tr r w', c.Traces (S := calls) (exec (diskService settings)) w tr r w' ∧ p (tr, r, w') := by
  have hact {w : World Disk} {a : Call} {r : Except String a.Answer} {w' : World Disk}
      (h : answer w a = some (r, w')) : exec (diskService settings) w a r w' := exec_answer rfl h
  obtain ⟨tr, r, w', h, hpx⟩ := Prog.exists_traces (S := calls) hact hp
  exact ⟨tr, r, w', h, of_decide_eq_true hpx⟩

/-- A disk on which the removal of a file frees `freed` bytes. -/
def Disk.shrinking (freed : UInt64) : Platform Disk where
  copyAndHash := Disk.platform.copyAndHash
  removeCachedFile v cache r v' :=
    r = .ok (v.removeCachedFile cache).1 ∧
      v' = { (v.removeCachedFile cache).2 with free := v.free + freed }
  freeBytes := Disk.platform.freeBytes
  HasFile := Disk.platform.HasFile

def shrinkingService (freed : UInt64) (settings : SchedulerSettings) : Service Disk where
  platform := Disk.shrinking freed
  pathResolver := plainPaths
  settings := settings

/-- The answer of each call. -/
def answerShrinking (freed : UInt64) (w : World Disk) :
    (a : Call) → Option (Except String a.Answer × World Disk)
  | .removeCachedFile _ cache =>
    let r := w.volume.removeCachedFile cache
    some (.ok r.1, { w with volume := { r.2 with free := w.volume.free + freed } })
  | a => answer w a

theorem exec_answerShrinking {freed : UInt64} {settings : SchedulerSettings} {w w' : World Disk}
    {a : Call} {r : Except String a.Answer} (h : answerShrinking freed w a = some (r, w')) :
    exec (shrinkingService freed settings) w a r w' := by
  cases a with
  | removeCachedFile p c => cases h; exact ⟨_, ⟨rfl, rfl⟩, rfl⟩
  | update u =>
    have hdisk : exec (diskService settings) w (.update u) r w' := exec_answer rfl h
    cases r with
    | ok _ => exact hdisk
    | error _ => exact hdisk
  | query q =>
    have hdisk : exec (diskService settings) w (.query q) r w' := exec_answer rfl h
    cases r with
    | ok _ => exact hdisk
    | error _ => exact hdisk
  | copyAndHash p s c m =>
    have hdisk : exec (diskService settings) w (.copyAndHash p s c m) r w' := exec_answer rfl h
    exact hdisk
  | freeBytes root =>
    have hdisk : exec (diskService settings) w (.freeBytes root) r w' := exec_answer rfl h
    exact hdisk
  | memory a =>
    have hdisk : exec (diskService settings) w (.memory a) r w' := exec_answer rfl h
    cases r with
    | ok _ => exact hdisk
    | error _ => exact hdisk

/-- What a program calls on such a disk. -/
theorem exists_shrinking {α : Type} (freed : UInt64) (settings : SchedulerSettings) (c : Task α)
    (w : World Disk) (p : List Answered × Except String α × World Disk → Prop) [DecidablePred p]
    (hp : (c.transcript (S := calls) (answerShrinking freed) w).any (fun x => decide (p x)) = true) :
    ∃ tr r w', c.Traces (S := calls) (exec (shrinkingService freed settings)) w tr r w' ∧
      p (tr, r, w') := by
  have hact {w : World Disk} {a : Call} {r : Except String a.Answer} {w' : World Disk}
      (h : answerShrinking freed w a = some (r, w')) :
      exec (shrinkingService freed settings) w a r w' := exec_answerShrinking h
  obtain ⟨tr, r, w', h, hpx⟩ := Prog.exists_traces (S := calls) hact hp
  exact ⟨tr, r, w', h, of_decide_eq_true hpx⟩

/-- `[97]` was cached first, then `[99]` an hour later, and `[98]` last. -/
def threeCached : World Disk where
  index := ((((((({} : CacheIndex).recordAccess { relativePath := [97], observedAt := 0 } 60).recordAccess
    { relativePath := [99], observedAt := 36000000000 } 60).recordAccess
    { relativePath := [98], observedAt := 72000000000 } 60).markCached [97] 5 5 "" 0).markCached
      [99] 5 5 "" 36000000000).markCached [98] 5 5 "" 72000000000)
  volume := { files := [[97], [99], [98]], free := 7 }
  clock := 72000000000

theorem threeCached_byLastAccess :
    threeCached.index.ByLastAccess [⟨[97], 5⟩, ⟨[99], 5⟩, ⟨[98], 5⟩] := by
  have hanswer : threeCached.index.cachedFilesByLastAccess = [⟨[97], 5⟩, ⟨[99], 5⟩, ⟨[98], 5⟩] := by
    decide +kernel
  rw [← hanswer]
  exact threeCached.index.byLastAccess

/-- Making room for `[97]` removes the file that was accessed longest ago, which is not the
first one by its path, and no other. -/
theorem makeRoomFor_evicts_other : ∃ tr w',
    (makeRoomFor (shrinkingService 5 { minFreeBytes := 10 }) [97]).Traces (S := calls)
      (exec (shrinkingService 5 { minFreeBytes := 10 })) threeCached tr (.ok ()) w' ∧
    RoomRun (shrinkingService 5 { minFreeBytes := 10 }) [97] threeCached
      [⟨[97], 5⟩, ⟨[99], 5⟩, ⟨[98], 5⟩] w'.index tr ∧
    w'.index.status [97] = some true ∧ w'.index.status [98] = some true ∧
    w'.index.status [99] = some false := by
  obtain ⟨tr, _, w', h, rfl, hown, hlater, holdest⟩ := exists_shrinking 5 { minFreeBytes := 10 }
    (makeRoomFor (shrinkingService 5 { minFreeBytes := 10 }) [97]) threeCached
    (fun x => x.2.1 = .ok () ∧ x.2.2.index.status [97] = some true ∧
      x.2.2.index.status [98] = some true ∧ x.2.2.index.status [99] = some false) (by decide +kernel)
  exact ⟨tr, w', h, makeRoomFor_evicts threeCached_byLastAccess h, hown, hlater, holdest⟩

end SsdCache
