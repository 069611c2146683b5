import SsdCache.Proof.Truth

/-!
# What a crash leaves

A process dies between two steps; the index and the files stay, and the next process
starts up on them.

* `restart_status`: startup takes the records it purges and leaves the others.
* `crash_truthful`: afterwards every record with `cache_present=1` has its file exactly
  when the worker had no file removed whose `mark_removed` is missing.
-/

namespace SsdCache

open Atomic Sql

variable {V : Type} {sv : Service V} {w w' : World V} {h : History V} {c : State V}
variable {ignored isDirectory : WString → Bool} {p : WString}

/-! ## Startup -/

/-- The records that the cleanup deletes. -/
def Purged (ignored isDirectory : WString → Bool) (p : WString) : Prop :=
  p = [] ∨ ignored p = true ∨ isDirectory p = true

instance (p : WString) : Decidable (Purged ignored isDirectory p) :=
  inferInstanceAs (Decidable (_ ∨ _))

theorem mem_addMissing : ∀ {jobs : List PendingJob} {paths : List WString}, p ∈ paths →
    p ∈ addMissing paths jobs
  | [], _, hp => hp
  | job :: jobs, paths, hp => by
    rw [addMissing]
    split
    · exact mem_addMissing hp
    · exact mem_addMissing (List.mem_append_left _ hp)

/-- `delete_record` takes one record. -/
theorem deleteRecord_status {q : WString}
    (hx : exec sv w (.update (.deleteRecord q)) (.ok ()) w') (p : WString) :
    w'.index.status p = if p = q then none else w.index.status p := exec_status hx p

/-- **The loop of the cleanup**, by induction on its paths. -/
theorem cleanupPaths_status : ∀ (paths : List WString) {w : World V},
    (cleanupPaths ignored isDirectory paths).Ends (exec sv) w (.ok ()) w' → ∀ p,
      w'.index.status p =
        if p ∈ paths ∧ (ignored p = true ∨ isDirectory p = true) then none else w.index.status p := by
  intro paths
  induction paths with
  | nil =>
    rintro w ⟨-, rfl⟩ p
    simp
  | cons q qs ih =>
    intro w h p
    -- a path that is deleted here or kept here is treated so by the rest
    have deleted (h : ((update (.deleteRecord q)).bind fun _ =>
        cleanupPaths ignored isDirectory qs).Ends (exec sv) w (.ok ()) w')
        (hq : ignored q = true ∨ isDirectory q = true) : w'.index.status p =
          if p ∈ q :: qs ∧ (ignored p = true ∨ isDirectory p = true) then none
          else w.index.status p := by
      obtain ⟨⟨⟩, m, hm, h⟩ := Prog.ends_bind h
      rw [ih h p, deleteRecord_status (Prog.ends_perform hm) p]
      by_cases hp : p = q
      · subst hp
        simp [hq]
      · simp [hp]
    rw [cleanupPaths] at h
    split at h
    · exact deleted h (.inl ‹_›)
    · split at h
      · exact deleted h (.inr ‹_›)
      · rw [ih h p]
        by_cases hp : p = q
        · subst hp
          simp [*]
        · simp [hp]

/-- A query answers about the world and leaves it. -/
theorem query_ends {q : Query} {r : q.Answer} (h : (query q).Ends (exec sv) w (.ok r) w') :
    q.Answers w.index w.clock r ∧ w' = w := Prog.ends_perform (S := calls) (a := .query q) h

/-- `emptyPathRecorded` writes nothing, and when it answers `false` there is no record. -/
theorem emptyPathRecorded_ends {b : Bool} (h : emptyPathRecorded.Ends (exec sv) w (.ok b) w') :
    w' = w ∧ (b = false → w.index.status [] = none) := by
  obtain ⟨job, m, hjob, h⟩ := Prog.ends_bind h
  obtain ⟨-, hm⟩ := query_ends hjob
  rw [hm] at h
  split at h
  · obtain ⟨hb, hw⟩ := h
    cases hb
    exact ⟨hw, nofun⟩
  · obtain ⟨record, m, hrecord, hb, hw⟩ := Prog.ends_bind h
    obtain ⟨hrecord, hm⟩ := query_ends hrecord
    refine ⟨hw.trans hm, fun hfalse => ?_⟩
    subst hfalse
    have hnone : record = none := by
      cases record with
      | none => rfl
      | some r => cases hb
    have hlookup : w.index.files.lookup [] = none :=
      Option.map_eq_none_iff.1 ((show record = w.index.fileRecord w.clock [] from hrecord).symm.trans hnone)
    rw [CacheIndex.status, hlookup]
    rfl

/-- The empty-path sentinel goes. -/
theorem removeEmptyPath_status (h : removeEmptyPath.Ends (exec sv) w (.ok ()) w') (p : WString) :
    w'.index.status p = if p = [] then none else w.index.status p := by
  obtain ⟨recorded, m, hrec, h⟩ := Prog.ends_bind h
  obtain ⟨hm, hnone⟩ := emptyPathRecorded_ends hrec
  rw [hm] at h
  cases recorded with
  | true => exact deleteRecord_status (Prog.ends_perform h) p
  | false =>
    obtain ⟨-, rfl⟩ := h
    split
    · rename_i hp
      rw [hp]
      exact hnone rfl
    · rfl

/-- **Startup takes the records it purges and leaves the others.** -/
theorem restart_status (h : Restarts sv ignored isDirectory w w') (p : WString) :
    w'.index.status p = if Purged ignored isDirectory p then none else w.index.status p := by
  obtain ⟨clock, h⟩ := h
  obtain ⟨_, m, hclean, hload⟩ := Prog.ends_bind h
  obtain ⟨_, m₁, hempty, hclean⟩ := Prog.ends_bind hclean
  obtain ⟨paths, m₂, hpaths, hclean⟩ := Prog.ends_bind hclean
  obtain ⟨jobs, m₃, hjobs, hclean⟩ := Prog.ends_bind hclean
  obtain ⟨jobs', m₄, hjobs', hpush⟩ := Prog.ends_bind hload
  obtain ⟨hpaths, h₂⟩ := query_ends hpaths
  have h₃ := (query_ends hjobs).2
  have h₄ := (query_ends hjobs').2
  have hlast : w'.index.status p = m₄.index.status p := exec_status (Prog.ends_perform hpush) p
  have hempty : m₁.index.status p = if p = [] then none else w.index.status p :=
    removeEmptyPath_status hempty p
  rw [hlast, h₄, cleanupPaths_status _ hclean p, h₃, h₂, hempty]
  have hmem : m₁.index.status p ≠ none → p ∈ addMissing paths jobs := fun hp => by
    refine mem_addMissing ?_
    rw [show paths = _ from hpaths]
    exact CacheIndex.mem_loadRecordPaths.2 hp
  unfold Purged
  rw [hempty] at hmem
  by_cases hp : p = []
  · simp [hp]
  · by_cases hpurge : ignored p = true ∨ isDirectory p = true
    · cases hs : w.index.status p with
      | none => simp [hpurge]
      | some b => simp [hp, hpurge, hmem (by simp [hp, hs])]
    · simp [hp, hpurge]

theorem Call.ByCleanup.not_engine {a : Call} (ha : a.ByCleanup) : ¬ a.Engine := by
  cases a with
  | copyAndHash p s c m => exact fun _ => ha
  | removeCachedFile p c => exact fun _ => ha
  | _ => exact id

/-- Startup leaves the cache volume. -/
theorem restart_volume (h : Restarts sv ignored isDirectory w w') : w'.volume = w.volume := by
  obtain ⟨clock, h⟩ := h
  have honly : (startup ignored isDirectory).Only fun a : Call => ¬ a.Engine := by
    refine Prog.Only.bind ((cleanup_only _ _).mono Call.ByCleanup.not_engine) fun _ => ?_
    exact Prog.Only.bind (Prog.only_perform id) fun _ => Prog.only_perform id
  have hstep {m : World V} {a : Call} {r : Except String a.Answer} {m' : World V} (ha : ¬ a.Engine)
      (hx : exec sv m a r m') (hm : m.volume = w.volume) : m'.volume = w.volume :=
    (exec_volume hx ha).trans hm
  exact Prog.Only.ends (P := fun m : World V => m.volume = w.volume) @hstep honly h rfl

/-! ## The crash -/

section Crash

variable (hE : sv.platform.HonoursInterface) (hT : sv.platform.KeepsOnThrow)
  (hinj : Function.Injective sv.pathResolver.cacheAbsolute)

include hE hT hinj

/-- **What a crash leaves**: after any step of any run, a record with `cache_present=1`
has no file exactly when the worker had the file removed and not yet recorded it. -/
theorem file_of_crash (h0 : Truthful sv w) (hrun : Run (system sv concurrent) (.idle w) h c)
    (hp : c.world.index.Present p) :
    HasCacheFile sv c.world p ↔ unrecorded .worker p h ≠ some false := by
  have hany : Meets (Returning False) h := meets_of_forall (fun _ _ _ => False.elim) h
  have hkept : FilesKept sv (h, c.world) := filesKept_of_run hE hinj h0 hrun hany (.inl hT)
  cases hu : unrecorded .worker p h with
  | none => exact iff_of_true (hkept.truthful hu hp) nofun
  | some b =>
    rw [hkept.moved hu, ne_eq, Option.some.injEq]
    cases b
    · exact iff_of_false Bool.false_ne_true fun hne => hne rfl
    · exact iff_of_true rfl nofun

/-- **Crash recovery restores a truthful index** exactly when every present record whose
file the worker removed, without recording it before the crash, is purged. -/
theorem crash_truthful (h0 : Truthful sv w) (hrun : Run (system sv concurrent) (.idle w) h c)
    (hrestart : Restarts sv ignored isDirectory c.world w') :
    Truthful sv w' ↔ ∀ p, unrecorded .worker p h = some false → c.world.index.Present p →
      Purged ignored isDirectory p := by
  have hfile (p : WString) : HasCacheFile sv w' p ↔ HasCacheFile sv c.world p := by
    unfold HasCacheFile
    rw [restart_volume hrestart]
  have hpresent (p : WString) :
      w'.index.Present p ↔ ¬ Purged ignored isDirectory p ∧ c.world.index.Present p := by
    unfold CacheIndex.Present
    rw [restart_status hrestart p]
    split <;> simp [*]
  constructor
  · intro htrue p hu hp
    by_contra hpurge
    have := (hfile p).1 (htrue p ((hpresent p).2 ⟨hpurge, hp⟩))
    exact (file_of_crash hE hT hinj h0 hrun hp).1 this hu
  · intro hall p hp
    obtain ⟨hpurge, hp⟩ := (hpresent p).1 hp
    rw [hfile, file_of_crash hE hT hinj h0 hrun hp]
    exact fun hu => hpurge (hall p hu hp)

end Crash

/-- The worker is evicting a file for another one; the process dies after `n` calls of the
batch. -/
def crashSchedule (n : ℕ) : List (Move Party Operation ℤ) :=
  .call .events (.recordEvent { relativePath := [97], observedAt := 0 }) :: steps .events 3 ++
  .call .worker (.runDueOnce 600000000) :: steps .worker 7 ++
  .call .events (.recordEvent { relativePath := [98], observedAt := 0 }) :: steps .events 3 ++
  .call .worker (.runDueOnce 600000000) :: steps .worker n

/-- The process dies after `mark_removed`. -/
theorem crash_truthful_after_mark_removed :
    ∃ h c w', Run (system (diskService { minFreeBytes := 1 }) concurrent)
        (.idle { volume := {}, clock := 600000000 }) h c ∧
      ¬ (c.prog .worker).Done ∧ Once (fun _ _ => Removes [97]) h ∧
      Restarts (diskService { minFreeBytes := 1 }) (fun _ => false) (fun _ => false) c.world w' ∧
      Truthful (diskService { minFreeBytes := 1 }) w' := by
  obtain ⟨h, c, hrun, hbusy, hremoved, hrestart, hmarked⟩ := exists_run { minFreeBytes := 1 }
    concurrent { volume := {}, clock := 600000000 } (crashSchedule 6)
    (fun x => ¬ (x.2.prog .worker).Done ∧ Once (fun _ _ => Removes [97]) x.1 ∧
      (restarted (fun _ => false) (fun _ => false) x.2.world).isSome = true ∧
      ∀ p ∈ x.2.world.index.loadRecordPaths, x.2.world.index.Present p →
        unrecorded .worker p x.1 ≠ some false) (by decide +kernel)
  obtain ⟨w', hw⟩ := Option.isSome_iff_exists.1 hrestart
  have hrestart : Restarts (diskService { minFreeBytes := 1 }) (fun _ => false) (fun _ => false)
      c.world w' := restarts_of_restarted rfl hw
  have h0 : Truthful (diskService { minFreeBytes := 1 }) { volume := {}, clock := 600000000 } := by
    intro p hp
    simp [CacheIndex.Present, CacheIndex.status] at hp
  refine ⟨h, c, w', hrun, hbusy, hremoved, hrestart, ?_⟩
  refine (crash_truthful Disk.honoursInterface Disk.keepsOnThrow Function.injective_id h0 hrun
    hrestart).2 fun p hu hp => ?_
  have hp' : p ∈ c.world.index.loadRecordPaths :=
    CacheIndex.mem_loadRecordPaths.2 (by rw [hp]; exact Option.some_ne_none _)
  exact absurd hu (hmarked p hp' hp)

/-- **A crash between the removal of a file and its `mark_removed` leaves a record that
claims the file**, and startup does not repair it. -/
theorem crash_leaves_stale_record :
    ∃ h c w', Run (system (diskService { minFreeBytes := 1 }) concurrent)
        (.idle { volume := {}, clock := 600000000 }) h c ∧
      Truthful (diskService { minFreeBytes := 1 }) { volume := {}, clock := 600000000 } ∧
      Restarts (diskService { minFreeBytes := 1 }) (fun _ => false) (fun _ => false) c.world w' ∧
      ¬ Truthful (diskService { minFreeBytes := 1 }) w' := by
  obtain ⟨h, c, hrun, hrestart⟩ := exists_run { minFreeBytes := 1 } concurrent
    { volume := {}, clock := 600000000 } (crashSchedule 5)
    (fun x => (restarted (fun _ => false) (fun _ => false) x.2.world).any (fun w' =>
      decide (w'.index.Present [97] ∧ [97] ∉ w'.volume.files)) = true) (by decide +kernel)
  obtain ⟨w', hw, hstale⟩ := (Option.any_eq_true _ _).1 hrestart
  obtain ⟨hpresent, hgone⟩ := of_decide_eq_true hstale
  refine ⟨h, c, w', hrun, fun p hp => ?_, restarts_of_restarted rfl hw, fun htrue => ?_⟩
  · simp [CacheIndex.Present, CacheIndex.status] at hp
  · exact hgone (htrue [97] hpresent)

end SsdCache
