import SsdCache.Proof.Queries
import SsdCache.Proof.Threads

/-!
# The job row of a path and its recorded accesses

While the accesses of a path are recorded in the order they were observed, and no
retry puts the row before an access, the row is never due before an access of the
path: `RowsLate`. Every access of a job's path that was recorded before the batch was
queried is then due (`DueBy`).

* `rowsLate_step`: one call keeps the rows late.
* `dueBy_of_query`: what a batch finds due.
-/

namespace SsdCache

open Atomic

variable {V : Type} {sv : Service V} {w w' : World V} {h : History V} {p : WString} {a : Call}
variable {l : Event} {t : Party}

/-- Accesses of a path are recorded in the order observed, and all times are between
1970 and year 9999. -/
def Ordered : History V → World V → Event → Prop := fun h _ l =>
  (∀ p ∈ eventPath l, ∀ d' ∈ scheduled p l, InRange d' ∧ ∀ d ∈ dues p h, d ≤ d') ∧
    (∀ now ∈ batchStart l, InRange now) ∧ ∀ q ∈ retried l, InRange q.2

instance (h : History V) (w : World V) (l : Event) : Decidable (Ordered h w l) :=
  inferInstanceAs (Decidable ((∀ p ∈ eventPath l, ∀ d' ∈ scheduled p l, _) ∧ _ ∧ _))

/-- No job row is due before a recorded access of its path. -/
structure RowsLate (x : History V × World V) : Prop where
  range : ∀ {p d}, d ∈ dues p x.1 → InRange d
  late : ∀ {p row d}, x.2.index.job p = some row → d ∈ dues p x.1 → formatUtc d ≤ row.dueUtc

theorem recorded_recordAccess {event : AccessEvent} {d : ℤ} :
    recorded p (.act t (.update (.recordAccess event d)) (.ok ())) =
      if p = event.relativePath ∧ p ≠ [] then some (event, d) else none := rfl

theorem scheduled_recordAccess {event : AccessEvent} {d : ℤ} :
    scheduled p (.act t (.update (.recordAccess event d)) (.ok ())) =
      if p = event.relativePath ∧ p ≠ [] ∧ shouldScheduleCopy event.kind = true then
        some (addSeconds event.observedAt d) else none := by
  rw [scheduled, recorded_recordAccess]
  by_cases hp : p = event.relativePath ∧ p ≠ []
  · rw [if_pos hp, Option.bind_some]
    simp only [hp.1, ne_eq, show ¬ event.relativePath = [] from hp.1 ▸ hp.2, not_false_eq_true,
      true_and]
  · rw [if_neg hp, if_neg fun h => hp ⟨h.1, h.2.1⟩]
    rfl

/-- Calls that may put a job row. -/
def Call.Puts : Call → Prop
  | .update (.recordAccess _ _) | .update (.upsertPendingJob _ _ _) => True
  | _ => False

/-- Only the record of an access schedules a job. -/
theorem Call.scheduled_of_no_access {r : Except String a.Answer}
    (ha : ∀ event d, a ≠ .update (.recordAccess event d)) : scheduled p (.act t a r) = none := by
  cases a with
  | update u =>
    cases r with
    | error e => rfl
    | ok r =>
      cases u with
      | recordAccess event d => exact absurd rfl (ha event d)
      | _ => rfl
  | _ => rfl

theorem Call.scheduled_of_not_puts {r : Except String a.Answer} (ha : ¬ a.Puts) :
    scheduled p (.act t a r) = none :=
  Call.scheduled_of_no_access fun _ _ heq => ha (heq ▸ trivial)

theorem eventPath_of_scheduled {d : ℤ} (hs : scheduled p l = some d) : p ∈ eventPath l := by
  unfold scheduled recorded at hs
  unfold eventPath
  split at hs
  · split at hs
    · rename_i hp
      exact congrArg some hp.1.symm
    · cases hs
  · cases hs

theorem mem_dues {d : ℤ} : ∀ {h : History V}, d ∈ dues p h ↔ ∃ x ∈ h, scheduled p x.2 = some d
  | [] => by simp [dues]
  | (w, l) :: h => by
    rw [dues, List.mem_append, mem_dues, Option.mem_toList, List.exists_mem_cons_iff]

/-- The row an access leaves is due when the access is. -/
theorem row_of_scheduled {u : Update} {d : ℤ} {row row' : Option JobRow} (hs : scheduled p l = some d)
    (hu : committed l = some u) (hrow : row' = u.onJob p row) :
    ∃ r, row' = some r ∧ r.dueUtc = formatUtc d := by
  unfold scheduled recorded at hs
  rw [hu] at hs
  split at hs
  · rename_i event delay heq
    cases heq
    split at hs
    · rename_i hp
      simp only [Option.bind_some] at hs
      split at hs
      · rename_i hk
        cases hs
        rw [hrow, Update.onJob, if_pos ⟨hp.1, hp.2, hk⟩]
        cases row <;> exact ⟨_, rfl, rfl⟩
      · cases hs
    · cases hs
  · cases hs

/-- A write that is neither an access nor a retry of `p` leaves the row's due time. -/
theorem due_of_row {u : Update} {row : Option JobRow} {r' : JobRow} (hs : scheduled p l = none)
    (hu : committed l = some u) (hr : u.onJob p row = some r')
    (hretry : ∀ due m, u ≠ .upsertPendingJob p due m) :
    ∃ r, row = some r ∧ r.dueUtc = r'.dueUtc := by
  cases u with
  | recordAccess event delay =>
    simp only [Update.onJob] at hr
    split at hr
    · rename_i hp
      unfold scheduled recorded at hs
      rw [hu] at hs
      simp only [if_pos (show p = event.relativePath ∧ p ≠ [] from ⟨hp.1, hp.2.1⟩),
        Option.bind_some, hp.2.2, if_true] at hs
      cases hs
    · exact ⟨r', hr, rfl⟩
  | upsertPendingJob q due m =>
    simp only [Update.onJob] at hr
    split at hr
    · rename_i hp
      exact absurd (by rw [hp.1]) (hretry due m)
    · exact ⟨r', hr, rfl⟩
  | recordError q m =>
    simp only [Update.onJob] at hr
    split at hr
    · cases row with
      | none => cases hr
      | some r => cases hr; exact ⟨r, rfl, rfl⟩
    · exact ⟨r', hr, rfl⟩
  | markCached q sz cz hash t => exact ⟨r', hr, rfl⟩
  | removePendingJob q =>
    simp only [Update.onJob] at hr
    split at hr
    · cases hr
    · exact ⟨r', hr, rfl⟩
  | deleteRecord q =>
    simp only [Update.onJob] at hr
    split at hr
    · cases hr
    · exact ⟨r', hr, rfl⟩
  | markRemoved q =>
    simp only [Update.onJob] at hr
    split at hr
    · cases hr
    · exact ⟨r', hr, rfl⟩

/-- **One call keeps the rows late**, if a retry does not put a row before an access. -/
theorem rowsLate_step {r : Except String a.Answer} (hx : exec sv w a r w')
    (ho : Ordered h w (.act t a r)) (hI : RowsLate (h, w))
    (hretry : ∀ p due m, a.written r = some (.upsertPendingJob p due m) →
      ∀ d ∈ dues p h, floorToSeconds d ≤ floorToSeconds due) :
    RowsLate (acted w t r h, w') := by
  have hrange : ∀ {p d}, d ∈ dues p (acted w t r h) → InRange d := by
    intro p d hd
    rcases List.mem_append.1 hd with hd | hd
    · have hs : scheduled p (.act t a r) = some d := by simpa using hd
      exact (ho.1 p (eventPath_of_scheduled hs) d hs).1
    · exact hI.range hd
  refine ⟨hrange, fun {p row d} hrow hd => ?_⟩
  rw [exec_job hx] at hrow
  rcases List.mem_append.1 hd with hnew | hold
  · have hs : scheduled p (.act t a r) = some d := by simpa using hnew
    cases hu : a.written r with
    | none => simp [scheduled, recorded, committed, hu] at hs
    | some u =>
      rw [hu, Option.elim_some] at hrow
      obtain ⟨row', hrow', hdue⟩ := row_of_scheduled hs hu hrow.symm
      cases hrow'
      rw [hdue]
  · cases hu : a.written r with
    | none => rw [hu] at hrow; exact hI.late hrow hold
    | some u =>
      rw [hu, Option.elim_some] at hrow
      cases hs : scheduled p (.act t a r) with
      | some d' =>
        -- the access itself gives the row its time, and it was observed last
        obtain ⟨row', hrow', hdue⟩ := row_of_scheduled hs hu hrow.symm
        cases hrow'
        obtain ⟨hrange', hle⟩ := ho.1 p (eventPath_of_scheduled hs) d' hs
        rw [hdue, format_le_iff (hI.range hold) hrange']
        exact floorToSeconds_mono (hI.range hold).1 (hle d hold)
      | none =>
        by_cases hup : ∃ due m, u = .upsertPendingJob p due m
        · obtain ⟨due, m, rfl⟩ := hup
          have hdueR : InRange due := ho.2.2 (p, due) (by simp [retried, committed, hu])
          simp only [Update.onJob] at hrow
          split at hrow
          · have hdue : row.dueUtc = formatUtc due := by
              cases hrow0 : w.index.job p <;> rw [hrow0] at hrow <;> cases hrow <;> rfl
            rw [hdue, format_le_iff (hI.range hold) hdueR]
            exact hretry p due m hu d hold
          · exact hI.late hrow hold
        · obtain ⟨row', hrow', hdue⟩ := due_of_row hs hu hrow fun due m heq => hup ⟨due, m, heq⟩
          rw [← hdue]
          exact hI.late hrow' hold

theorem rowsLate_tick {clock : ℤ} (hI : RowsLate (h, w)) :
    RowsLate ((w, .env) :: h, { w with clock }) :=
  ⟨hI.range, hI.late⟩

/-! ## What a batch finds due -/

/-- Every access of `p` recorded before the current batch was queried is due. -/
def DueBy (now : ℤ) (p : WString) (h : History V) : Prop :=
  ∀ d ∈ dues p h, d ∈ newDues p h ∨ floorToSeconds d ≤ floorToSeconds now

/-- Until the next batch, a later access is a new one. -/
theorem DueBy.cons {now : ℤ} (hb : batchStart l = none) (hd : DueBy now p h) :
    DueBy now p ((w, l) :: h) := by
  intro d hmem
  simp only [newDues, hb, Option.isSome_none, Bool.false_eq_true, if_false, List.mem_append]
  rcases List.mem_append.1 hmem with hnew | hold
  · exact .inl (.inl hnew)
  · exact (hd d hold).imp_left .inr

/-- **A job that `due_jobs` answers is due after every access recorded before.** -/
theorem dueBy_of_query {now clock limit : ℤ} {jobs : List PendingJob} {j : PendingJob}
    (hI : RowsLate (h, w)) (hnow : InRange now) (hjobs : w.index.IsDueJobs clock now limit jobs)
    (hj : j ∈ jobs) (hs : scheduled j.relativePath l = none) :
    DueBy now j.relativePath ((w, l) :: h) := by
  intro d hmem
  obtain ⟨row, hrow, hdue, -⟩ := hjobs.job hj
  rcases List.mem_append.1 hmem with hnew | hold
  · rw [hs] at hnew
    cases hnew
  · right
    rw [← format_le_iff (hI.range hold) hnow]
    exact (hI.late hrow hold).trans hdue

/-- A retry comes after the batch. -/
theorem le_retryDue {now : ℤ} (hnow : InRange now) (j : PendingJob) : now ≤ retryDue now j := by
  have hsec : 0 ≤ retrySeconds j.retries ∧ retrySeconds j.retries ≤ 300 := by
    unfold retrySeconds
    omega
  obtain ⟨h0, h1⟩ := hnow
  unfold year10000 ticksPerSecond at h1
  have hsum : retryDue now j = now + retrySeconds j.retries * ticksPerSecond := by
    unfold retryDue addSeconds
    exact Int.bmod_eq_of_le (by unfold ticksPerSecond; omega) (by unfold ticksPerSecond; omega)
  rw [hsum]
  unfold ticksPerSecond
  omega

end SsdCache
