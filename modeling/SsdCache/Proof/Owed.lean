import SsdCache.Proof.Threads

/-!
# What keeps a job row

An access of a file owes it a copy until something clears the debt. Whatever the
debt is (`Since A B`, where an access is behind `A` and a `Delete` event clears it),
`owed_step` reduces "an owed copy has a job row" to the writes that delete the row.
-/

namespace SsdCache

open Atomic

variable {V : Type} {w : World V} {h : History V} {p : WString} {l : Event}

/-- The path whose job row the worker deletes: after a copy, or when it removed the
cache file. -/
def dropped (l : Event) : Option WString :=
  match committed l with
  | some (.removePendingJob p) | some (.deleteRecord p) => some p
  | some (.markRemoved p) => if Deletes p l then none else some p
  | _ => none

/-- The event thread drops no row; it only records `Delete` events. -/
theorem dropped_events {a : Call} {r : Except String a.Answer} (ha : a.ByEvents) :
    dropped (.act .events a r) = none := by
  cases a with
  | update u =>
    cases r with
    | error e => rfl
    | ok v =>
      cases u with
      | recordAccess event d => rfl
      | markRemoved q => exact if_pos rfl
      | _ => cases ha
  | _ => rfl

/-- Only the worker drops rows. -/
theorem Call.ByOthers.dropped {t : Party} {a : Call} {r : Except String a.Answer}
    (ht : t ≠ .worker) (ha : a.ByOthers t) : dropped (.act t a r) = none := by
  cases t with
  | worker => exact absurd rfl ht
  | events => exact dropped_events ha
  | control =>
    cases a with
    | update u => exact ha.elim
    | _ => rfl
  | freeProcess =>
    cases a with
    | update u => exact ha.elim
    | _ => rfl

/-- A write that empties a job row is a drop or a `Delete` event. -/
theorem dropped_or_deletes {p : WString} {l : Event} {u : Update} {row : Option JobRow}
    (hu : committed l = some u) (hrow : row ≠ none) (hnone : u.onJob p row = none) :
    dropped l = some p ∨ Deletes p l := by
  unfold dropped
  rw [hu]
  cases u with
  | recordAccess event d =>
    simp only [Update.onJob] at hnone
    split at hnone
    · cases hnone
    · exact absurd hnone hrow
  | upsertPendingJob q due reason =>
    simp only [Update.onJob] at hnone
    split at hnone
    · cases hnone
    · exact absurd hnone hrow
  | recordError q e =>
    simp only [Update.onJob] at hnone
    split at hnone
    · exact absurd (Option.map_eq_none_iff.1 hnone) hrow
    · exact absurd hnone hrow
  | markCached q s c hash t => exact absurd hnone hrow
  | removePendingJob q =>
    simp only [Update.onJob] at hnone
    split at hnone
    · rename_i hq; subst hq; exact .inl rfl
    · exact absurd hnone hrow
  | deleteRecord q =>
    simp only [Update.onJob] at hnone
    split at hnone
    · rename_i hq; subst hq; exact .inl rfl
    · exact absurd hnone hrow
  | markRemoved q =>
    simp only [Update.onJob] at hnone
    split at hnone
    · rename_i hq
      subst hq
      by_cases hd : Deletes p l
      · exact .inr hd
      · exact .inl (if_neg hd)
    · exact absurd hnone hrow

/-- Recording an access puts a job row. -/
theorem job_of_accesses {p : WString} {l : Event} (ha : Accesses p l) :
    ∃ u, committed l = some u ∧ ∀ row, u.onJob p row ≠ none := by
  unfold Accesses scheduled recorded at ha
  split at ha
  · rename_i event d hu
    refine ⟨_, hu, fun row => ?_⟩
    split at ha
    · rename_i hp
      simp only [Option.bind_some] at ha
      split at ha
      · rename_i hk
        rw [Update.onJob, if_pos ⟨hp.1, hp.2, hk⟩]
        exact Option.some_ne_none _
      · cases ha
    · cases ha
  · cases ha

/-- **One step keeps the row of an owed copy**, when no row is dropped while its copy
is owed. -/
theorem owed_step {A B : Condition V}
    {row row' : Option JobRow} (hA : A h w l → Accesses p l) (hB : Deletes p l → B h w l)
    (hdrop : dropped l = some p → ¬ Since A B h ∨ B h w l) (hrow : Since A B h → row ≠ none)
    (hstep : row' = (committed l).elim row fun u => u.onJob p row)
    (howed : Since A B ((w, l) :: h)) : row' ≠ none := by
  rw [hstep]
  rcases howed with ha | ⟨hnB, howed⟩
  · obtain ⟨u, hu, hput⟩ := job_of_accesses (hA ha)
    rw [hu]
    exact hput _
  · cases hu : committed l with
    | none => exact hrow howed
    | some u =>
      intro hnone
      rcases dropped_or_deletes hu (hrow howed) hnone with hd | hd
      · exact (hdrop hd).elim (fun hn => hn howed) hnB
      · exact hnB (hB hd)

end SsdCache
