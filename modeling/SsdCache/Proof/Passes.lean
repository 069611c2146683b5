import SsdCache.Atomic.Trace
import SsdCache.Proof.Batch

/-!
# The calls of a pass

What one pass of `worker_loop` may have called when it has ended, and how it ended: a
batch makes calls up to the first one that throws (`batchBody_traces`), and the rest of
the pass is one of five shapes (`EntryRun`).
-/

namespace SsdCache

open Atomic

variable {V W : Type} {sv : Service V}

/-- A call and its answer. -/
abbrev Answered : Type := (a : Call) × Except String a.Answer

/-- The call threw. -/
def Threw (x : Answered) : Prop := ∃ e, x.2 = .error e

variable {exec : W → (a : Call) → Except String a.Answer → W → Prop} {w w' : W}
variable {tr : List Answered} {r : Except String Unit}

/-- Accesses to the memory do not throw. -/
def MemoryReturns (exec : W → (a : Call) → Except String a.Answer → W → Prop) : Prop :=
  ∀ w m e w', ¬ exec w (.memory m) (.error e) w'

theorem memoryReturns_exec (sv : Service V) : MemoryReturns (SsdCache.exec sv) := fun _ _ _ _ => id

theorem not_threw_ok {a : Call} {v : a.Answer} : ¬ Threw ⟨a, .ok v⟩ := by
  rintro ⟨e, he⟩
  cases he

instance : DecidablePred Threw := fun x =>
  match x with
  | ⟨_, .ok _⟩ => .isFalse nofun
  | ⟨_, .error e⟩ => .isTrue ⟨e, rfl⟩

/-- No call threw so far. -/
def AllReturned (x : List Answered × W) : Prop := ∀ y ∈ x.1, ¬ Threw y

/-- The last call threw, and no other. -/
def LastThrew (x : List Answered × W) : Prop :=
  ∃ tr y, x.1 = tr ++ [y] ∧ Threw y ∧ ∀ z ∈ tr, ¬ Threw z

theorem returned_triple (exec : W → (a : Call) → Except String a.Answer → W → Prop) (a : Call) :
    (Prog.alone (S := calls) exec).Triple AllReturned a (onOk (fun _ => AllReturned) LastThrew) := by
  refine ⟨Prog.stable_alone, ?_⟩
  rintro ⟨tr, w⟩ r ⟨_, w'⟩ hx ⟨-, rfl⟩
  refine ⟨trivial, ?_⟩
  cases r with
  | ok v =>
    intro y hy
    rcases List.mem_append.1 hy with hy | hy
    · exact hx y hy
    · rw [List.mem_singleton.1 hy]
      exact nofun
  | error e => exact ⟨tr, ⟨a, .error e⟩, rfl, ⟨e, rfl⟩, hx⟩

/-- The outline of a batch that lists its calls. -/
def returnedBatch (exec : W → (a : Call) → Except String a.Answer → W → Prop) (sv : Service V)
    (now : ℤ) : BatchOutline (Prog.alone (S := calls) exec) sv now :=
  .uniform AllReturned AllReturned AllReturned LastThrew (fun _ => id) Prog.stable_alone
    Prog.stable_alone Prog.stable_alone (returned_triple exec _) fun _ => returned_triple exec _

/-- **The body of the `try` block makes calls up to the first that throws.** -/
theorem batchBody_traces (h : (batchBody sv).Traces (S := calls) exec w tr r w') :
    (r = .ok () ∧ AllReturned (tr, w')) ∨ ((∃ e, r = .error e) ∧ LastThrew (tr, w')) := by
  have hsafe : (batchBody sv).Safe (Prog.alone (S := calls) exec)
      (fun r x => (r = .ok () ∧ AllReturned x) ∨ ((∃ e, r = .error e) ∧ LastThrew x)) ([], w) := by
    have hempty : AllReturned (([] : List Answered), w) := fun _ hy => by cases hy
    refine Prog.safe_perform (returned_triple exec (.memory .now)) hempty (fun t z hz => ?_) ?_
    · refine Prog.safe_bind (Prog.safe_mono (fun r z hz => ?_) ((returnedBatch exec sv t).safe hz))
      cases r with
      | ok v => rintro _ rfl; exact .inl ⟨rfl, hz⟩
      | error e => rintro _ rfl; exact .inr ⟨⟨e, rfl⟩, hz⟩
    · rintro e z hz _ rfl
      exact .inr ⟨⟨e, rfl⟩, hz⟩
  exact Prog.traces_of_safe hsafe h

/-! ## The shapes of a pass -/

/-- What a pass calls after its pop. -/
inductive EntryRun (exec : W → (a : Call) → Except String a.Answer → W → Prop) (sv : Service V)
    (e : HeapEntry) (w : W) : List Answered → Except String Unit → W → Prop
  /-- A pause came after the pop. -/
  | putBack {u w' : W} : exec w (.memory .loadPaused) (.ok true) u →
      exec u (.memory (.push e.relativePath (floorToSeconds e.dueUtc))) (.ok ()) w' →
      EntryRun exec sv e w [⟨.memory .loadPaused, .ok true⟩,
        ⟨.memory (.push e.relativePath (floorToSeconds e.dueUtc)), .ok ()⟩] (.ok ()) w'
  | lookupThrew {u w' : W} {error : String} : exec w (.memory .loadPaused) (.ok false) u →
      exec u (.query (.pendingJob e.relativePath)) (.error error) w' →
      EntryRun exec sv e w [⟨.memory .loadPaused, .ok false⟩,
        ⟨.query (.pendingJob e.relativePath), .error error⟩] (.error error) w'
  /-- The entry is stale, or its job is gone. -/
  | skipped {u w' : W} {job : Option PendingJob} : exec w (.memory .loadPaused) (.ok false) u →
      exec u (.query (.pendingJob e.relativePath)) (.ok job) w' →
      (∀ j ∈ job, j.dueUtc ≠ e.dueUtc) →
      EntryRun exec sv e w [⟨.memory .loadPaused, .ok false⟩,
        ⟨.query (.pendingJob e.relativePath), .ok job⟩] (.ok ()) w'
  | ran {u v w' : W} {job : PendingJob} {tr : List Answered} :
      exec w (.memory .loadPaused) (.ok false) u →
      exec u (.query (.pendingJob e.relativePath)) (.ok (some job)) v → job.dueUtc = e.dueUtc →
      (batchBody sv).Traces (S := calls) exec v tr (.ok ()) w' →
      EntryRun exec sv e w (⟨.memory .loadPaused, .ok false⟩ ::
        ⟨.query (.pendingJob e.relativePath), .ok (some job)⟩ :: tr) (.ok ()) w'
  /-- A call of the batch threw, and the handler ran. -/
  | threw {u v m w' : W} {job : PendingJob} {tr : List Answered} {error : String}
      {r : Except String Unit} : exec w (.memory .loadPaused) (.ok false) u →
      exec u (.query (.pendingJob e.relativePath)) (.ok (some job)) v → job.dueUtc = e.dueUtc →
      (batchBody sv).Traces (S := calls) exec v tr (.error error) m →
      exec m (.update (.recordError e.relativePath error)) r w' →
      EntryRun exec sv e w (⟨.memory .loadPaused, .ok false⟩ ::
        ⟨.query (.pendingJob e.relativePath), .ok (some job)⟩ ::
        (tr ++ [⟨.update (.recordError e.relativePath error), r⟩])) r w'

/-- **What the worker does with an entry it popped.** -/
theorem runEntry_traces {e : HeapEntry} (hmemory : MemoryReturns exec)
    (h : (runEntry sv e).Traces (S := calls) exec w tr r w') : EntryRun exec sv e w tr r w' := by
  obtain ⟨x, u, rest, rfl, hpaused, h⟩ := h
  cases x with
  | error e' => exact absurd hpaused (hmemory _ _ _ _)
  | ok paused =>
    cases (paused : Bool) with
    | true =>
      obtain ⟨x, u', rest, rfl, hpush, h⟩ := h
      cases x with
      | error e' => exact absurd hpush (hmemory _ _ _ _)
      | ok v =>
        obtain ⟨rfl, rfl, rfl⟩ := h
        exact .putBack hpaused hpush
    | false =>
      obtain ⟨x, v, rest, rfl, hlookup, h⟩ := h
      cases x with
      | error e' =>
        obtain ⟨rfl, rfl, rfl⟩ := h
        exact .lookupThrew hpaused hlookup
      | ok job =>
        cases (job : Option PendingJob) with
        | none =>
          obtain ⟨rfl, rfl, rfl⟩ := h
          exact .skipped hpaused hlookup nofun
        | some job =>
          change (if job.dueUtc ≠ e.dueUtc then pure () else runBatch sv e).Traces (S := calls) exec
            v rest r w' at h
          by_cases hdue : job.dueUtc = e.dueUtc
          · rw [if_neg fun hne => hne hdue] at h
            rcases Prog.traces_tryCatch.1 h with ⟨_, rfl, hbatch⟩ |
              ⟨error, m, tr₁, tr₂, rfl, hbatch, hh⟩
            · exact .ran hpaused hlookup hdue hbatch
            · obtain ⟨rfl, hrecord⟩ := Prog.traces_perform.1 hh
              exact .threw hpaused hlookup hdue hbatch hrecord
          · rw [if_pos hdue] at h
            obtain ⟨rfl, rfl, rfl⟩ := h
            refine .skipped hpaused hlookup ?_
            rintro j ⟨⟩
            exact hdue

/-- What a pass calls when the popped entry goes to `f`. -/
inductive PassRun (exec : W → (a : Call) → Except String a.Answer → W → Prop)
    (f : HeapEntry → Task Unit) (w : W) : List Answered → Except String Unit → W → Prop
  | stopped {u w' : W} : exec w (.memory .loadStopRequested) (.ok true) u →
      exec u (.memory .exit) (.ok ()) w' →
      PassRun exec f w [⟨.memory .loadStopRequested, .ok true⟩, ⟨.memory .exit, .ok ()⟩] (.ok ()) w'
  | paused {u w' : W} : exec w (.memory .loadStopRequested) (.ok false) u →
      exec u (.memory .loadPaused) (.ok true) w' →
      PassRun exec f w [⟨.memory .loadStopRequested, .ok false⟩, ⟨.memory .loadPaused, .ok true⟩]
        (.ok ()) w'
  | waits {u v w' : W} : exec w (.memory .loadStopRequested) (.ok false) u →
      exec u (.memory .loadPaused) (.ok false) v → exec v (.memory .popDue) (.ok none) w' →
      PassRun exec f w [⟨.memory .loadStopRequested, .ok false⟩, ⟨.memory .loadPaused, .ok false⟩,
        ⟨.memory .popDue, .ok none⟩] (.ok ()) w'
  | popped {u v m w' : W} {e : HeapEntry} {tr : List Answered} {r : Except String Unit} :
      exec w (.memory .loadStopRequested) (.ok false) u →
      exec u (.memory .loadPaused) (.ok false) v → exec v (.memory .popDue) (.ok (some e)) m →
      (f e).Traces (S := calls) exec m tr r w' →
      PassRun exec f w (⟨.memory .loadStopRequested, .ok false⟩ ::
        ⟨.memory .loadPaused, .ok false⟩ :: ⟨.memory .popDue, .ok (some e)⟩ :: tr) r w'

/-- One pass that hands the popped entry to `f`. -/
def passWith (f : HeapEntry → Task Unit) : Task Unit := do
  let stopRequested : Bool ← memory .loadStopRequested
  if stopRequested then memory .exit
  else do
    let paused : Bool ← memory .loadPaused
    if paused then pure ()
    else do
      let next : Option HeapEntry ← memory .popDue
      match next with
      | none => pure ()
      | some next => f next

theorem passWith_traces {f : HeapEntry → Task Unit} (hmemory : MemoryReturns exec)
    (h : (passWith f).Traces (S := calls) exec w tr r w') : PassRun exec f w tr r w' := by
  obtain ⟨x, u, rest, rfl, hstop, h⟩ := h
  cases x with
  | error e => exact absurd hstop (hmemory _ _ _ _)
  | ok stop =>
    cases (stop : Bool) with
    | true =>
      obtain ⟨x, u', rest, rfl, hexit, h⟩ := h
      cases x with
      | error e => exact absurd hexit (hmemory _ _ _ _)
      | ok v =>
        obtain ⟨rfl, rfl, rfl⟩ := h
        exact .stopped hstop hexit
    | false =>
      obtain ⟨x, v, rest, rfl, hpaused, h⟩ := h
      cases x with
      | error e => exact absurd hpaused (hmemory _ _ _ _)
      | ok paused =>
        cases (paused : Bool) with
        | true =>
          obtain ⟨rfl, rfl, rfl⟩ := h
          exact .paused hstop hpaused
        | false =>
          obtain ⟨x, m, rest, rfl, hpop, h⟩ := h
          cases x with
          | error e => exact absurd hpop (hmemory _ _ _ _)
          | ok next =>
            cases (next : Option HeapEntry) with
            | none =>
              obtain ⟨rfl, rfl, rfl⟩ := h
              exact .waits hstop hpaused hpop
            | some e => exact .popped hstop hpaused hpop h

theorem workerBody_eq (sv : Service V) : workerBody sv =
    passWith fun next => (narrowPath next.relativePath).bind fun _ => runEntry sv next := rfl

end SsdCache
