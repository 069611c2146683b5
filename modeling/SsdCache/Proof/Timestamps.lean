import SsdCache.Proof.Queries
import SsdCache.Spec.Replay

/-!
# Due times on their way through the index

A due time is written as text and read back as a time point, while `enqueue` keeps the
time point itself, floored to seconds.

* `DueAt.apply`: what the statements write keeps every row at a time point in range.
* `isDueJobs_iff`: the textual `WHERE` and `ORDER BY` of `due_jobs` are those of time.
* `timestamps_exact`: the codec is exact and preserves the order.
-/

namespace SsdCache

open Atomic Sql

variable {ix : CacheIndex} {due : WString → ℤ} {clock nowUtc limit : ℤ} {jobs : List PendingJob}

namespace CacheIndex

/-- Every job row of the index is due at the time point `due` of its path. -/
def DueAt (ix : CacheIndex) (due : WString → ℤ) : Prop :=
  ∀ p row, ix.job p = some row → row.dueUtc = formatUtc (due p) ∧ InRange (due p)

/-- The due times after one path's job is put to another time. -/
def putDue (due : WString → ℤ) : Option (WString × ℤ) → WString → ℤ
  | some (q, t), p => if p = q then t else due p
  | none, p => due p

end CacheIndex

/-- The job that a statement puts to a due time. -/
def Update.putsDue : Update → Option (WString × ℤ)
  | recordAccess event copyDelay =>
    if event.relativePath ≠ [] ∧ shouldScheduleCopy event.kind = true then
      some (event.relativePath, addSeconds event.observedAt copyDelay)
    else none
  | upsertPendingJob q dueUtc _ => if q ≠ [] then some (q, dueUtc) else none
  | _ => none

namespace CacheIndex

/-- A row a statement leaves is at its new due time, or was there before with the same text. -/
theorem job_cases {ix' : CacheIndex} {u : Update} (hu : u.apply ix = .ok ix') {p : WString}
    {row : JobRow} (hrow : ix'.job p = some row) :
    (∃ t, u.putsDue = some (p, t) ∧ row.dueUtc = formatUtc t) ∨
      (∀ t, u.putsDue ≠ some (p, t)) ∧ ∃ old, ix.job p = some old ∧ row.dueUtc = old.dueUtc := by
  rw [u.job_apply hu p] at hrow
  cases u with
  | recordAccess event d =>
    simp only [Update.onJob] at hrow
    split at hrow
    · rename_i hp
      obtain ⟨rfl, hne, hs⟩ := hp
      left
      refine ⟨addSeconds event.observedAt d, if_pos ⟨hne, hs⟩, ?_⟩
      cases hold : ix.job event.relativePath <;> rw [hold] at hrow <;> cases hrow <;> rfl
    · rename_i hp
      right
      refine ⟨fun t ht => hp ?_, row, hrow, rfl⟩
      simp only [Update.putsDue, Option.ite_none_right_eq_some, Option.some.injEq,
        Prod.mk.injEq] at ht
      obtain ⟨⟨hne, hs⟩, rfl, -⟩ := ht
      exact ⟨rfl, hne, hs⟩
  | upsertPendingJob q due reason =>
    simp only [Update.onJob] at hrow
    split at hrow
    · rename_i hp
      obtain ⟨rfl, hne⟩ := hp
      left
      refine ⟨due, if_pos hne, ?_⟩
      cases hold : ix.job p <;> rw [hold] at hrow <;> cases hrow <;> rfl
    · rename_i hp
      right
      refine ⟨fun t ht => hp ?_, row, hrow, rfl⟩
      simp only [Update.putsDue, Option.ite_none_right_eq_some, Option.some.injEq,
        Prod.mk.injEq] at ht
      obtain ⟨hne, rfl, -⟩ := ht
      exact ⟨rfl, hne⟩
  | recordError q e =>
    right
    refine ⟨nofun, ?_⟩
    simp only [Update.onJob] at hrow
    split at hrow
    · obtain ⟨old, hold, rfl⟩ := Option.map_eq_some_iff.1 hrow
      exact ⟨old, hold, rfl⟩
    · exact ⟨row, hrow, rfl⟩
  | markCached q s c hash t => exact .inr ⟨nofun, row, hrow, rfl⟩
  | removePendingJob q | deleteRecord q | markRemoved q =>
    right
    refine ⟨nofun, row, ?_, rfl⟩
    simp only [Update.onJob] at hrow
    split at hrow
    · cases hrow
    · exact hrow

/-- **The statements keep every row at a time point in range**, when the due times they
write are. -/
theorem DueAt.apply {ix' : CacheIndex} {u : Update} (hdue : ix.DueAt due)
    (hu : u.apply ix = .ok ix') (hrange : ∀ p t, u.putsDue = some (p, t) → InRange t) :
    ix'.DueAt (putDue due u.putsDue) := by
  intro p row hrow
  rcases job_cases hu hrow with ⟨t, ht, htext⟩ | ⟨hput, old, hold, htext⟩
  · rw [ht, putDue, if_pos rfl]
    exact ⟨htext, hrange p t ht⟩
  · have hkept : putDue due u.putsDue p = due p := by
      cases hx : u.putsDue with
      | none => rfl
      | some x =>
        obtain ⟨q, t⟩ := x
        have hne : p ≠ q := fun hpq => hput t (by rw [hx, hpq])
        exact if_neg hne
    rw [hkept, htext]
    exact hdue p old hold

/-- **`due_jobs` selects and orders by time.** -/
theorem isDueJobs_iff (hdue : ix.DueAt due) (hnow : InRange nowUtc) :
    ix.IsDueJobs clock nowUtc limit jobs ↔
      ∃ l, IsSelect (fun row => floorToSeconds (due row.1) ≤ floorToSeconds nowUtc)
        (fun row => floorToSeconds (due row.1)) limit ix.pendingJobs l ∧
        jobs = l.map (readPendingJob clock) := by
  have htext : ∀ row ∈ rows ix.pendingJobs,
      row.2.dueUtc = formatUtc (due row.1) ∧ InRange (due row.1) := by
    rintro ⟨p, row⟩ hrow
    exact hdue p row (mem_rows.1 hrow)
  have hselect (l : List (WString × JobRow)) :
      IsSelect (fun row => row.2.dueUtc ≤ formatUtc nowUtc) (fun row => row.2.dueUtc) limit
        ix.pendingJobs l ↔
      IsSelect (fun row => floorToSeconds (due row.1) ≤ floorToSeconds nowUtc)
        (fun row => floorToSeconds (due row.1)) limit ix.pendingJobs l := by
    apply isSelect_congr
    · intro x hx
      obtain ⟨htx, hrx⟩ := htext x hx
      rw [htx, decide_eq_decide, format_le_iff hrx hnow]
    · intro x hx y hy
      obtain ⟨htx, hrx⟩ := htext x hx
      obtain ⟨hty, hry⟩ := htext y hy
      rw [htx, hty, format_le_iff hrx hry]
  unfold IsDueJobs IsDueJobsWith
  simp only [hselect]
  exact Iff.rfl

end CacheIndex

variable {V : Type}

/-- The entry that `enqueue` pushes. -/
theorem mem_heap_of_enqueue {sv : Service V} {w w' : World V} {p : WString} {t : ℤ}
    (h : (enqueue p t).Ends (exec sv) w (.ok ()) w') :
    ⟨floorToSeconds t, w.memory.sequence + 1, p⟩ ∈ w'.memory.heap := by
  have hexec := Prog.ends_perform h
  obtain ⟨-, hrun, -⟩ := hexec
  have hmemory : w'.memory = w.memory.push p (floorToSeconds t) := congrArg Prod.snd hrun
  rw [hmemory]
  simp only [Memory.push, List.mem_orderedInsert, true_or]

/-- **The timestamp codec is exact and preserves the order**: the text of a time point reads
back as the time point floored to seconds, so that the heap entry and the row of a due time
agree; texts compare as times do, so that the worker's query selects and orders by time. -/
theorem timestamps_exact {t u : ℤ} (ht : InRange t) (hu : InRange u) :
    parseUtc (formatUtc t) = some (floorToSeconds t) ∧
      (∀ {V : Type} {sv : Service V} {w w' : World V} {p : WString},
        (enqueue p t).Ends (exec sv) w (.ok ()) w' →
        ∃ entry ∈ w'.memory.heap, entry.relativePath = p ∧ entry.dueUtc = floorToSeconds t ∧
          ∀ (clock : ℤ) (row : JobRow), row.dueUtc = formatUtc t →
            (CacheIndex.readPendingJob clock (p, row)).dueUtc = entry.dueUtc) ∧
      (formatUtc t ≤ formatUtc u ↔ floorToSeconds t ≤ floorToSeconds u) ∧
      ∀ {ix : CacheIndex} {due : WString → ℤ} {nowUtc : ℤ}, ix.DueAt due → InRange nowUtc →
        ∀ {clock limit : ℤ} {jobs : List PendingJob}, ix.IsDueJobs clock nowUtc limit jobs ↔
          ∃ l, IsSelect (fun row => floorToSeconds (due row.1) ≤ floorToSeconds nowUtc)
            (fun row => floorToSeconds (due row.1)) limit ix.pendingJobs l ∧
            jobs = l.map (CacheIndex.readPendingJob clock) := by
  refine ⟨parse_format ht, ?_, format_le_iff ht hu, ?_⟩
  · intro V sv w w' p h
    refine ⟨_, mem_heap_of_enqueue h, rfl, rfl, fun clock row hrow => ?_⟩
    rw [CacheIndex.readPendingJob_dueUtc, hrow, parse_format ht, Option.getD_some]
  · intro ix due nowUtc hdue hnow clock limit jobs
    exact CacheIndex.isDueJobs_iff hdue hnow

/-- The index of `jobDue`: one job, due a minute after 1970 began. -/
theorem dueAt_jobDue (p : WString) : (jobDue p).index.DueAt fun _ => 600000000 := by
  have hempty : ({} : CacheIndex).DueAt fun _ => 600000000 := nofun
  have hdue := hempty.apply (u := .recordAccess { relativePath := p, observedAt := 0 } 60) rfl
    (by
      intro q t ht
      simp only [Update.putsDue, Option.ite_none_right_eq_some, Option.some.injEq,
        Prod.mk.injEq] at ht
      obtain ⟨-, rfl, rfl⟩ := ht
      decide)
  intro q row hrow
  obtain ⟨htext, hrange⟩ := hdue q row hrow
  have hput : CacheIndex.putDue (fun _ => 600000000)
      (Update.recordAccess { relativePath := p, observedAt := 0 } 60).putsDue q = 600000000 := by
    simp only [CacheIndex.putDue, Update.putsDue]
    split
    · rename_i ht
      split at ht
      · cases ht
        split <;> rfl
      · cases ht
    · rfl
  rw [hput] at htext hrange
  exact ⟨htext, hrange⟩

/-- The last tick of a leap day and the first one of the next month. -/
theorem timestamps_exact_leapDay :
    parseUtc (formatUtc 9518687999999999) = some 9518687990000000 ∧
      (∃ entry ∈ ((jobDue [0x61]).memory.push [0x61]
          (floorToSeconds 9518687999999999)).heap,
        entry.relativePath = [0x61] ∧ ∀ (clock : ℤ) (row : JobRow),
          row.dueUtc = formatUtc 9518687999999999 →
            (CacheIndex.readPendingJob clock ([0x61], row)).dueUtc = entry.dueUtc) ∧
      formatUtc 9518687999999999 ≤ formatUtc 9518688000000000 ∧
      ∃ l, IsSelect (fun _ => decide (floorToSeconds 600000000 ≤ floorToSeconds 600000005))
        (fun _ => floorToSeconds 600000000) 32 (jobDue [0x61]).index.pendingJobs l ∧
        (jobDue [0x61]).index.dueJobs 0 600000005 32 =
          l.map (CacheIndex.readPendingJob 0) := by
  have ht : InRange 9518687999999999 := by decide
  have hu : InRange 9518688000000000 := by decide
  obtain ⟨hparse, hheap, horder, hquery⟩ := timestamps_exact ht hu
  refine ⟨hparse, ?_, horder.2 (by decide), ?_⟩
  · have hends : (enqueue [0x61] 9518687999999999).Ends (exec (diskService {}))
        (jobDue [0x61]) (.ok ())
        { jobDue [0x61] with
          memory := (jobDue [0x61]).memory.push [0x61]
            (floorToSeconds 9518687999999999) } :=
      ⟨.ok (), _, ⟨trivial, rfl, rfl⟩, rfl, rfl⟩
    obtain ⟨entry, hentry, hpath, -, hread⟩ := hheap hends
    exact ⟨entry, hentry, hpath, hread⟩
  · have hnow : InRange 600000005 := by decide
    exact (hquery (dueAt_jobDue [0x61]) hnow).1 ⟨_, select_isSelect .., rfl⟩

end SsdCache
