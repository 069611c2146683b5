import SsdCache.Proof.Step

/-!
# What each party calls

The event thread writes the index and the heap, the control thread reads the index
and moves the scheduler's memory, a `--free` process removes files: `recordEvent_only`,
`control_only`, `free_only`. `concurrent_cases` and its like read the menus.
-/

namespace SsdCache

open Atomic

variable {V : Type} {sv : Service V} {c : State V} {t : Party} {o : Operation}

/-- The calls of the event thread. -/
def Call.ByEvents : Call → Prop
  | .update (.recordAccess _ _) | .update (.markRemoved _) => True
  | .memory .loadPaused | .memory (.push _ _) => True
  | _ => False

/-- The calls of one event: its own `Delete` or access, and the heap entry. -/
def Call.Records (sv : Service V) (event : AccessEvent) : Call → Prop
  | .update u =>
    u = .markRemoved event.relativePath ∨ u = .recordAccess event sv.settings.copyDelay
  | .memory .loadPaused | .memory (.push _ _) => True
  | _ => False

/-- The calls of the control thread. -/
def Call.ByControl : Call → Prop
  | .query .loadPendingJobs | .memory _ => True
  | _ => False

/-- The calls of a start, which leaves the pause as it is. -/
def Call.ByStart : Call → Prop
  | .query .loadPendingJobs | .memory (.compareExchangeStop _ _) => True
  | .memory (.storeStopRequested _) | .memory .joinable => True
  | .memory (.pushAll _) | .memory .spawn => True
  | _ => False

theorem Call.ByStart.byControl {a : Call} (ha : a.ByStart) : a.ByControl := by
  cases a with
  | query q => cases q <;> exact ha
  | memory m => trivial
  | _ => exact ha

/-- The calls of a `--free` process. -/
def Call.ByFree : Call → Prop
  | .query .cachedFilesByLastAccess | .removeCachedFile _ _ | .update (.markRemoved _) => True
  | _ => False

/-- The calls of the startup cleanup. -/
def Call.ByCleanup : Call → Prop
  | .query (.pendingJob _) | .query (.fileRecord _) => True
  | .query .loadPendingJobs | .query .loadRecordPaths => True
  | .update (.deleteRecord _) => True
  | _ => False

theorem recordEvent_records (event : AccessEvent) :
    (recordEvent sv event).Only (Call.Records sv event) := by
  unfold recordEvent
  split
  · exact trivial
  · refine Prog.Only.bind (Prog.only_perform trivial) fun (paused : Bool) => ?_
    refine Prog.Only.bind ?_ fun _ => ?_
    · unfold narrowPath
      split
      · exact trivial
      · exact trivial
    · split
      · exact trivial
      · split
        · exact Prog.only_perform (.inl rfl)
        · refine Prog.Only.bind (Prog.only_perform (.inr rfl)) fun _ => ?_
          split
          · exact Prog.only_perform trivial
          · exact trivial

theorem Call.Records.byEvents {event : AccessEvent} {a : Call} (ha : a.Records sv event) :
    a.ByEvents := by
  cases a with
  | update u =>
    rcases ha with rfl | rfl
    · trivial
    · trivial
  | memory m => cases m <;> exact ha
  | _ => exact ha

theorem recordEvent_only (event : AccessEvent) : (recordEvent sv event).Only Call.ByEvents :=
  (recordEvent_records event).mono Call.Records.byEvents

theorem start_byStart : start.Only Call.ByStart := by
  refine Prog.Only.bind ?_ fun _ => ?_
  · refine Prog.Only.bind (Prog.only_perform trivial) fun (exchanged : Bool) => ?_
    cases exchanged with
    | true => exact trivial
    | false => exact Prog.only_perform trivial
  · refine Prog.Only.bind (Prog.only_perform trivial) fun (joinable : Bool) => ?_
    cases joinable with
    | true => exact trivial
    | false =>
      refine Prog.Only.bind ?_ fun _ => Prog.only_perform trivial
      exact Prog.Only.bind (Prog.only_perform trivial) fun _ => Prog.only_perform trivial

theorem start_only : start.Only Call.ByControl := start_byStart.mono Call.ByStart.byControl

theorem joinWorker_only : joinWorker.Only Call.ByControl := by
  refine Prog.Only.bind (Prog.only_perform trivial) fun (joinable : Bool) => ?_
  cases joinable with
  | true => exact Prog.only_perform trivial
  | false => exact trivial

theorem stop_only : stop.Only Call.ByControl :=
  Prog.Only.bind (Prog.only_perform trivial) fun _ => joinWorker_only

theorem setPaused_only (paused : Bool) : (setPaused paused).Only Call.ByControl :=
  Prog.Only.bind (Prog.only_perform trivial) fun _ => trivial

theorem evictFiles_only (pathResolver : PathResolver) (targetBytes : UInt64) (exclude : WString) :
    ∀ (victims : List CachedFileRef) (result : EvictionResult),
      (evictFiles pathResolver targetBytes exclude victims result).Only Call.ByFree := by
  intro victims
  induction victims with
  | nil => exact fun _ => trivial
  | cons v vs ih =>
    intro result
    rw [evictFiles]
    split
    · exact trivial
    · split
      · exact ih result
      · refine Prog.Only.bind (Prog.only_perform trivial) fun (r : RemoveResult) => ?_
        split
        · exact Prog.Only.bind (Prog.only_perform trivial) fun _ => ih _
        · exact ih result

theorem evict_only (pathResolver : PathResolver) (targetBytes : UInt64) (exclude : WString) :
    (evictLeastRecentlyUsed pathResolver targetBytes exclude).Only Call.ByFree := by
  unfold evictLeastRecentlyUsed
  split
  · exact trivial
  · exact Prog.Only.bind (Prog.only_perform trivial) fun victims => evictFiles_only _ _ _ victims _

theorem cleanupPaths_only (ignored isDirectory : WString → Bool) :
    ∀ paths, (cleanupPaths ignored isDirectory paths).Only Call.ByCleanup := by
  intro paths
  induction paths with
  | nil => exact trivial
  | cons p ps ih =>
    rw [cleanupPaths]
    split
    · exact Prog.Only.bind (Prog.only_perform trivial) fun _ => ih
    · split
      · exact Prog.Only.bind (Prog.only_perform trivial) fun _ => ih
      · exact ih

theorem cleanup_only (ignored isDirectory : WString → Bool) :
    (cleanupInvalidCacheRecords ignored isDirectory).Only Call.ByCleanup := by
  refine Prog.Only.bind ?_ fun _ => ?_
  · refine Prog.Only.bind ?_ fun recorded => ?_
    · refine Prog.Only.bind (Prog.only_perform trivial) fun (job : Option PendingJob) => ?_
      split
      · exact trivial
      · exact Prog.Only.bind (Prog.only_perform trivial) fun _ => trivial
    · split
      · exact Prog.only_perform trivial
      · exact trivial
  · refine Prog.Only.bind (Prog.only_perform trivial) fun paths => ?_
    exact Prog.Only.bind (Prog.only_perform trivial) fun jobs => cleanupPaths_only _ _ _

/-! ## The menus -/

theorem concurrent_cases (h : concurrent t c o = true) :
    (∃ event, t = .events ∧ o = .recordEvent event) ∨ (∃ now, t = .worker ∧ o = .runDueOnce now) ∨
    (t = .worker ∧ o = .workerIteration) ∨
    (t = .control ∧ (o = .start ∨ o = .stop ∨ (∃ paused, o = .setPaused paused) ∨
      o = .requestStop ∨ o = .joinWorker)) := by
  unfold concurrent at h
  split at h
  · exact .inl ⟨_, rfl, rfl⟩
  · exact .inr (.inl ⟨_, rfl, rfl⟩)
  · exact .inr (.inr (.inl ⟨rfl, rfl⟩))
  · exact .inr (.inr (.inr ⟨rfl, .inl rfl⟩))
  · exact .inr (.inr (.inr ⟨rfl, .inr (.inl rfl)⟩))
  · exact .inr (.inr (.inr ⟨rfl, .inr (.inr (.inl ⟨_, rfl⟩))⟩))
  · exact .inr (.inr (.inr ⟨rfl, .inr (.inr (.inr (.inl rfl)))⟩))
  · exact .inr (.inr (.inr ⟨rfl, .inr (.inr (.inr (.inr rfl)))⟩))
  · cases h

theorem started_cases (h : started t c o = true) :
    (∃ event, t = .events ∧ o = .recordEvent event) ∨
    (t = .worker ∧ o = .workerIteration ∧ c.world.memory.alive = true) ∨
    (t = .control ∧ (o = .start ∨ o = .stop ∨ ∃ paused, o = .setPaused paused)) := by
  unfold started at h
  split at h
  · exact .inl ⟨_, rfl, rfl⟩
  · exact .inr (.inl ⟨rfl, rfl, h⟩)
  · exact .inr (.inr ⟨rfl, .inl rfl⟩)
  · exact .inr (.inr ⟨rfl, .inr (.inl rfl)⟩)
  · exact .inr (.inr ⟨rfl, .inr (.inr ⟨_, rfl⟩)⟩)
  · cases h

theorem started_concurrent (h : started t c o = true) : concurrent t c o = true := by
  rcases started_cases h with ⟨event, rfl, rfl⟩ | ⟨rfl, rfl, -⟩ | ⟨rfl, rfl | rfl | ⟨paused, rfl⟩⟩
  all_goals rfl

/-- A run of a menu with fewer operations. -/
theorem run_concurrent {menu : Menu V} {c₀ : State V} {h : History V}
    (hmenu : ∀ {t c o}, menu t c o = true → concurrent t c o = true)
    (hrun : Run (system sv menu) c₀ h c) : Run (system sv concurrent) c₀ h c :=
  Run.mono_menu (M := system sv concurrent) hmenu hrun

/-- What the parties other than the worker call. -/
def Call.ByOthers (t : Party) (a : Call) : Prop :=
  match t with
  | .events => a.ByEvents
  | _ => a.ByControl

theorem concurrent_others (ht : t ≠ .worker) (h : concurrent t c o = true) :
    (o.body sv).Only (Call.ByOthers t) := by
  rcases concurrent_cases h with
    ⟨event, rfl, rfl⟩ | ⟨now, rfl, -⟩ | ⟨rfl, -⟩ | ⟨rfl, rfl | rfl | ⟨b, rfl⟩ | rfl | rfl⟩
  · exact recordEvent_only event
  · exact absurd rfl ht
  · exact absurd rfl ht
  · exact start_only
  · exact stop_only
  · exact setPaused_only b
  · exact Prog.only_perform trivial
  · exact joinWorker_only

end SsdCache
