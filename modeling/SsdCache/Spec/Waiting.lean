import SsdCache.Atomic.Local
import SsdCache.Atomic.Sum
import SsdCache.Spec.Replay

/-!
# Waiting for work

The scheduler again, with `mutex_` and the condition variable `wake_`: every access to an
atomic flag is a step, the heap is accessed where the code holds the mutex, a wait
evaluates its predicate and then releases the mutex and blocks at once, and
`notify_all` wakes the worker if it is blocked. The rest of a pass and of
`record_event` is the code of `Spec.Scheduler` with its heap pushes spelt out.
-/

namespace SsdCache

open Atomic

/-- The three waits of `worker_loop`: for the end of a pause, for an entry in the heap, and
`wait_until` the next entry is due. -/
inductive Wait
  | pause
  | empty
  | due
  deriving DecidableEq, Repr

/-- Accesses to the mutex and the condition variable, and the heap under the mutex. -/
inductive WaitCall
  | lock
  | unlock
  /-- `heap_.empty()` -/
  | heapEmpty
  /-- Release the mutex and block. -/
  | block (wait : Wait)
  /-- Wake up and take the mutex again. -/
  | reacquire (wait : Wait)
  | notifyAll
  deriving DecidableEq

def WaitCall.Answer : WaitCall → Type
  | heapEmpty => Bool
  | _ => Unit

def waitOnly : Sig := ⟨WaitCall, WaitCall.Answer⟩

def waitCalls : Sig := calls.sum waitOnly

abbrev WaitTask (α : Type) : Type := Prog waitCalls String α

def condition (a : WaitCall) : WaitTask a.Answer := Prog.right (S := calls) (T := waitOnly) a

/-- One call of the scheduler or the index. -/
def plain (a : Call) : WaitTask a.Answer := Prog.perform (S := waitCalls) (.inl a)

/-- The world of the scheduler, whether the mutex is held, the wait that the worker is
blocked in, and the wait that it was woken from. -/
structure WaitWorld (V : Type) where
  service : World V
  locked : Bool := false
  blocked : Option Wait := none
  woken : Option Wait := none

variable {V : Type}

/-- `wait_until` ends by itself as well. -/
def WaitWorld.Wakes (w : WaitWorld V) (wait : Wait) : Prop :=
  w.woken = some wait ∨ (wait = .due ∧ w.blocked = some .due)

instance (w : WaitWorld V) (wait : Wait) : Decidable (w.Wakes wait) :=
  inferInstanceAs (Decidable (_ ∨ _))

def WaitCall.Does (w : WaitWorld V) : (a : WaitCall) → Except String a.Answer → WaitWorld V → Prop
  | lock, .ok (), w' => w.locked = false ∧ w' = { w with locked := true }
  | unlock, .ok (), w' => w' = { w with locked := false }
  | heapEmpty, .ok empty, w' => empty = w.service.memory.heap.isEmpty ∧ w' = w
  | block wait, .ok (), w' => w' = { w with locked := false, blocked := some wait }
  | reacquire wait, .ok (), w' => w.locked = false ∧ w.Wakes wait ∧
    w' = { w with locked := true, blocked := none, woken := none }
  | notifyAll, .ok (), w' =>
    w' = { w with blocked := none, woken := w.blocked.or w.woken }
  | _, .error _, _ => False

def waitExec (sv : Service V) (w : WaitWorld V) :
    (a : waitCalls.Act) → Except String (waitCalls.Resp a) → WaitWorld V → Prop
  | .inl a, r, w' => ∃ service, exec sv w.service a r service ∧ w' = { w with service }
  | .inr a, r, w' => WaitCall.Does w a r w'

/-! ## The callers -/

/-- `enqueue` -/
def guardedPush (relativePath : WString) (dueUtc : ℤ) : WaitTask Unit := do
  condition .lock
  plain (.memory (.push relativePath dueUtc))
  condition .unlock
  condition .notifyAll

/-- The call, a push with the mutex and the notification. -/
def guardedCall : (a : Call) → WaitTask a.Answer
  | .memory (.push relativePath dueUtc) => guardedPush relativePath dueUtc
  | a => plain a

def notifyingSetPaused (paused : Bool) : WaitTask Unit := do
  let wasPaused : Bool ← plain (.memory (.exchangePaused paused))
  if wasPaused = paused then pure () else condition .notifyAll

def notifyingStop : WaitTask Unit := do
  requestStop.left
  condition .notifyAll
  joinWorker.left

/-! ## The worker -/

/-- The predicate of a wait; `wait_until` has none. -/
def waitPredicate (wait : Wait) : WaitTask Bool :=
  match wait with
  | .pause => do
    let stopRequested : Bool ← plain (.memory .loadStopRequested)
    if stopRequested then pure true
    else do
      let paused : Bool ← plain (.memory .loadPaused)
      pure (!paused)
  | .empty => do
    let stopRequested : Bool ← plain (.memory .loadStopRequested)
    if stopRequested then pure true
    else do
      let empty : Bool ← condition .heapEmpty
      pure (!empty)
  | .due => pure true

/-- One turn of the loop in `wait`: block, or return and leave the scope of the lock. -/
def waitTurn (wait : Wait) : WaitTask Unit := do
  let holds ← waitPredicate wait
  if holds then condition .unlock else condition (.block wait)

/-- The worker wakes up in a wait. -/
def wakeUp (wait : Wait) : WaitTask Unit := do
  condition (.reacquire wait)
  waitTurn wait

/-- One pass of `worker_loop` up to its end or its block in a wait. -/
def workerPass (sv : Service V) : WaitTask Unit := do
  let stopRequested : Bool ← plain (.memory .loadStopRequested)
  if stopRequested then plain (.memory .exit)
  else do
    condition .lock
    let paused : Bool ← plain (.memory .loadPaused)
    if paused then waitTurn .pause
    else do
      let empty : Bool ← condition .heapEmpty
      if empty then waitTurn .empty
      else do
        let next : Option HeapEntry ← plain (.memory .popDue)
        match next with
        | none => condition (.block .due)
        | some next => do
          condition .unlock
          (runEntry sv next).expand guardedCall

/-! ## The system -/

/-- The worker, and the threads that call into the scheduler. -/
inductive WaitParty
  | worker
  | caller (n : ℕ)
  deriving DecidableEq, Repr

inductive WaitOperation
  | pass
  | wakeUp (wait : Wait)
  | stop
  | setPaused (paused : Bool)
  | recordEvent (event : AccessEvent)
  deriving DecidableEq

def WaitOperation.body (sv : Service V) : WaitOperation → WaitTask Unit
  | pass => workerPass sv
  | wakeUp wait => SsdCache.wakeUp wait
  | stop => notifyingStop
  | setPaused paused => notifyingSetPaused paused
  | recordEvent event => (SsdCache.recordEvent sv event).expand guardedCall

/-- The worker goes on where it is; the callers call what they want. -/
def waitMenu (t : WaitParty) (c : Config waitCalls String (WaitWorld V) WaitParty)
    (o : WaitOperation) : Bool :=
  match t, o with
  | .worker, .pass =>
    c.world.service.memory.alive && c.world.blocked.isNone && c.world.woken.isNone
  | .worker, .wakeUp wait => c.world.blocked = some wait || c.world.woken = some wait
  | .caller _, .stop | .caller _, .setPaused _ | .caller _, .recordEvent _ => true
  | _, _ => false

/-- Time passes. -/
def waitTick (w w' : WaitWorld V) : Prop :=
  ∃ service, tick w.service service ∧ w' = { w with service }

def waiting (sv : Service V) :
    Machine waitCalls String (WaitWorld V) WaitParty WaitOperation where
  body := WaitOperation.body sv
  menu t c o := waitMenu t c o = true
  exec := waitExec sv
  env := waitTick

abbrev WaitState (V : Type) : Type := Config waitCalls String (WaitWorld V) WaitParty

abbrev WaitHistory (V : Type) : Type :=
  Hist waitCalls String (WaitWorld V) WaitParty WaitOperation

abbrev WaitEvent : Type := Label waitCalls String WaitParty WaitOperation

/-! ## Playing schedules -/

/-- The answer of a call, when it has one. -/
def WaitCall.does (w : WaitWorld V) : (a : WaitCall) → Option (Except String a.Answer × WaitWorld V)
  | lock => if w.locked = false then some (.ok (), { w with locked := true }) else none
  | unlock => some (.ok (), { w with locked := false })
  | heapEmpty => some (.ok w.service.memory.heap.isEmpty, w)
  | block wait => some (.ok (), { w with locked := false, blocked := some wait })
  | reacquire wait =>
    if w.locked = false ∧ w.Wakes wait then
      some (.ok (), { w with locked := true, blocked := none, woken := none })
    else none
  | notifyAll => some (.ok (), { w with blocked := none, woken := w.blocked.or w.woken })

def waitAnswer (w : WaitWorld Disk) :
    (a : waitCalls.Act) → Option (Except String (waitCalls.Resp a) × WaitWorld Disk)
  | .inl a => (answer w.service a).map fun x => (x.1, { w with service := x.2 })
  | .inr a => a.does w

theorem WaitCall.does_ok {w w' : WaitWorld V} {a : WaitCall} {r : Except String a.Answer}
    (h : a.does w = some (r, w')) : a.Does w r w' := by
  cases a with
  | lock =>
    simp only [WaitCall.does] at h
    split at h
    · cases h; exact ⟨‹_›, rfl⟩
    · cases h
  | reacquire wait =>
    simp only [WaitCall.does] at h
    split at h
    · rename_i hok
      cases h
      exact ⟨hok.1, hok.2, rfl⟩
    · cases h
  | heapEmpty => cases h; exact ⟨rfl, rfl⟩
  | unlock => cases h; rfl
  | block wait => cases h; rfl
  | notifyAll => cases h; rfl

theorem waitExec_answer {sv : Service Disk} (hsv : sv.platform = Disk.platform)
    {w w' : WaitWorld Disk} {a : waitCalls.Act} {r : Except String (waitCalls.Resp a)}
    (h : waitAnswer w a = some (r, w')) : waitExec sv w a r w' := by
  cases a with
  | inl a =>
    obtain ⟨⟨r, service⟩, ha, hr⟩ := Option.map_eq_some_iff.1 h
    cases hr
    exact ⟨service, exec_answer hsv ha, rfl⟩
  | inr a => exact WaitCall.does_ok h

/-- Plays schedules of the worker and its callers on a disk. -/
def waitPlayer (sv : Service Disk) (hsv : sv.platform = Disk.platform) : Player (waiting sv) ℤ where
  act := waitAnswer
  env clock w := { w with service := { w.service with clock } }
  menu := waitMenu
  envOk clock w := w.service.clock ≤ clock
  act_ok := waitExec_answer hsv
  menu_ok := id
  env_ok {clock _} h := ⟨_, ⟨clock, of_decide_eq_true h, rfl⟩, rfl⟩

end SsdCache
