import SsdCache.Spec.Eviction
import SsdCache.Spec.Host
import SsdCache.Spec.Scheduler

/-!
# The system

The parties that call into one index and one cache volume, and what each may call:
`concurrent` is the service with its three threads, `freeing` the worker beside a
`--free` process, `sequential` the calls of a single caller. Between two calls the
clock may move forward.
-/

namespace SsdCache

open Atomic

/-- The threads of the service, and the process of `--free`. -/
inductive Party
  | worker
  | events
  | control
  | freeProcess
  deriving DecidableEq, Repr

instance : Inhabited Party := ⟨.worker⟩

/-- What a party may call. -/
inductive Operation
  | recordEvent (event : AccessEvent)
  | runDueOnce (nowUtc : ℤ)
  | workerIteration
  | start
  | stop
  | requestStop
  | joinWorker
  | setPaused (paused : Bool)
  | cleanup (ignored isDirectory : WString → Bool)
  /-- Its process joins relative paths to the same configured cache root. -/
  | free (targetBytes : UInt64) (exclude : WString)

variable {V : Type}

def Operation.body (sv : Service V) : Operation → Task Unit
  | recordEvent event => SsdCache.recordEvent sv event
  | runDueOnce nowUtc => do
    let _ ← SsdCache.runDueOnce sv nowUtc
    pure ()
  | workerIteration => SsdCache.workerIteration sv
  | start => SsdCache.start
  | stop => SsdCache.stop
  | requestStop => SsdCache.requestStop
  | joinWorker => SsdCache.joinWorker
  | setPaused paused => SsdCache.setPaused paused
  | cleanup ignored isDirectory => cleanupInvalidCacheRecords ignored isDirectory
  | free targetBytes exclude => do
    let _ ← evictLeastRecentlyUsed sv.pathResolver targetBytes exclude
    pure ()

/-- A state of the system; a step of one of its histories. -/
abbrev State (V : Type) : Type := Config calls String (World V) Party

abbrev Event : Type := Label calls String Party Operation

abbrev History (V : Type) : Type := Hist calls String (World V) Party Operation

/-- Which operations a party may start in a state. -/
abbrev Menu (V : Type) : Type := Party → State V → Operation → Bool

/-- Time passes. -/
def tick (w w' : World V) : Prop := ∃ clock, w.clock ≤ clock ∧ w' = { w with clock }

def system (sv : Service V) (menu : Menu V) : Machine calls String (World V) Party Operation where
  body := Operation.body sv
  menu t c o := menu t c o = true
  exec := exec sv
  env := tick

/-! ## Who calls what -/

/-- The threads of the service: events arrive on one, the worker runs batches, and
the service control starts, stops and pauses. -/
def concurrent : Menu V := fun t _ o =>
  match t, o with
  | .events, .recordEvent _ => true
  | .worker, .runDueOnce _ | .worker, .workerIteration => true
  | .control, .start | .control, .stop | .control, .setPaused _ => true
  | .control, .requestStop | .control, .joinWorker => true
  | _, _ => false

/-- The same, with the worker thread as `start` and `stop` leave it. -/
def started : Menu V := fun t c o =>
  match t, o with
  | .events, .recordEvent _ => true
  | .worker, .workerIteration => c.world.memory.alive
  | .control, .start | .control, .stop | .control, .setPaused _ => true
  | _, _ => false

/-- The service's worker and a `--free` process. -/
def freeing : Menu V := fun t _ o =>
  match t, o with
  | .worker, .runDueOnce _ => true
  | .freeProcess, .free _ _ => true
  | _, _ => false

/-- The service beside a `--free` process. -/
def evicting : Menu V := fun t c o => concurrent t c o || freeing t c o

/-- Nobody is in a call. -/
def allIdle (c : State V) : Bool :=
  decide (c.prog .worker).Done && decide (c.prog .events).Done && decide (c.prog .control).Done &&
    decide (c.prog .freeProcess).Done

theorem allIdle_iff {c : State V} : allIdle c = true ↔ ∀ t, (c.prog t).Done := by
  simp only [allIdle, Bool.and_eq_true, decide_eq_true_eq]
  constructor
  · rintro ⟨⟨⟨hw, he⟩, hc⟩, hf⟩ t
    cases t
    · exact hw
    · exact he
    · exact hc
    · exact hf
  · exact fun h => ⟨⟨⟨h _, h _⟩, h _⟩, h _⟩

/-- One call at a time: events and batches. -/
def sequential : Menu V := fun t c o =>
  allIdle c &&
    match t, o with
    | .events, .recordEvent _ => true
    | .worker, .runDueOnce _ => true
    | _, _ => false

/-- One call at a time: events, batches and the startup cleanup. -/
def sequentialHost : Menu V := fun t c o =>
  allIdle c &&
    match t, o with
    | .events, .recordEvent _ => true
    | .worker, .runDueOnce _ => true
    | .control, .cleanup _ _ => true
    | _, _ => false

/-- One call at a time: events observed now, worker iterations, stops and starts. -/
def sequentialService : Menu V := fun t c o =>
  allIdle c &&
    match t, o with
    | .events, .recordEvent event => event.observedAt = c.world.clock
    | .worker, .workerIteration => c.world.memory.alive
    | .control, .start | .control, .requestStop | .control, .joinWorker => true
    | _, _ => false

end SsdCache
