import SsdCache.Proof.Batch
import SsdCache.Proof.Threads
import SsdCache.Spec.Waiting

/-!
# Wake-ups

`stop` and `set_paused` change their flags without the mutex and then call `notify_all`,
`enqueue` pushes under the mutex. Who holds the mutex and who has yet to notify are local
states of the threads (`waitProtocol`), to which every operation keeps (`body_follows`).

* `guarded_step`: the mutex excludes, so that a worker that blocks for an entry has seen
  the heap as it is.
* `noticed_step`: while the worker is blocked in a wait whose predicate is true, a
  notification is pending, unless a block overlooked one.
* `no_lost_wakeUp_iff`: **no wake-up is lost exactly if** no stop and no resume falls,
  flag and notification, between the predicate and the block.
-/

namespace SsdCache

open Atomic

variable {V : Type} {sv : Service V} {w w' : WaitWorld V} {h : WaitHistory V} {c : WaitState V}
variable {t u : WaitParty}

/-! ## The property -/

/-- The predicate of a wait, as the worker would evaluate it now. -/
def WaitWorld.Satisfied (w : WaitWorld V) : Wait → Prop
  | .pause => w.service.memory.stopRequested = true ∨ w.service.memory.paused = false
  | .empty => w.service.memory.stopRequested = true ∨ w.service.memory.heap ≠ []
  | .due => False

/-- The part of it that is changed without the mutex. -/
def WaitWorld.FlagRaised (w : WaitWorld V) : Wait → Prop
  | .pause => w.service.memory.stopRequested = true ∨ w.service.memory.paused = false
  | .empty => w.service.memory.stopRequested = true
  | .due => False

/-- Whether a thread holds the mutex, and has seen the heap empty under it. -/
inductive Hold
  | out
  | held
  | heldEmpty
  deriving DecidableEq

/-- What a thread holds, and whether it has raised what a wait is for and has yet to
call `notify_all`. -/
structure WaitLocal where
  hold : Hold
  owes : Bool
  deriving DecidableEq

/-- The use of the mutex and the condition variable. -/
def waitProtocol : Protocol waitCalls String WaitLocal where
  rest := ⟨.out, false⟩
  next q a r :=
    match a, r with
    | .inl (.memory (.storeStopRequested true)), .ok () => { q with owes := true }
    | .inl (.memory (.exchangePaused false)), .ok wasPaused =>
      { q with owes := (show Bool from wasPaused) || q.owes }
    | .inl (.memory (.push _ _)), .ok () => ⟨.held, true⟩
    | .inl (.memory .popDue), .ok _ => { q with hold := .held }
    | .inr .lock, .ok () | .inr (.reacquire _), .ok () => { q with hold := .held }
    | .inr .unlock, .ok () | .inr (.block _), .ok () => { q with hold := .out }
    | .inr .heapEmpty, .ok empty =>
      { q with hold := if (show Bool from empty) then .heldEmpty else .held }
    | .inr .notifyAll, .ok () => { q with owes := false }
    | _, _ => q
  allows q a :=
    match a with
    | .inl (.memory (.push _ _)) | .inl (.memory .popDue) => q.hold ≠ .out
    | .inl (.memory .join) | .inr (.reacquire _) => q = ⟨.out, false⟩
    -- `start` does not run here
    | .inl (.memory (.pushAll _)) | .inl (.memory (.compareExchangeStop _ _)) => False
    | .inr .lock => q.hold = .out
    | .inr .unlock | .inr .heapEmpty => q.hold ≠ .out
    | .inr (.block wait) => q.hold ≠ .out ∧ (wait = .empty → q.hold = .heldEmpty)
    | _ => True
  answers a r :=
    match a, r with
    | .inl (.memory _), .error _ | .inr _, .error _ => False
    | _, _ => True

/-- The local state of a thread. -/
abbrev waitLocal (t : WaitParty) (h : WaitHistory V) : WaitLocal := waitProtocol.localState t h

/-- Some thread has raised what a wait is for and will call `notify_all`. -/
def NotifyPending (h : WaitHistory V) : Prop := ∃ t, (waitLocal t h).owes = true

/-- The worker is blocked in a wait whose predicate is true. -/
def WaitWorld.Overdue (w : WaitWorld V) : Prop := ∃ wait, w.blocked = some wait ∧ w.Satisfied wait

/-- It is, and no thread will call `notify_all` for it. -/
def Unnoticed (h : WaitHistory V) (w : WaitWorld V) : Prop := w.Overdue ∧ ¬ NotifyPending h

/-- The actions in which a thread waits for another: for the worker to end, and the worker
to be woken. -/
def Waits : waitCalls.Act → Bool
  | .inl (.memory .join) | .inr (.reacquire _) => true
  | _ => false

/-- A thread that has returned, or that waits for another. -/
def Finished : WaitTask Unit → Prop
  | .call a _ => Waits a = true
  | _ => True

instance (c : WaitTask Unit) : Decidable (Finished c) :=
  match c with
  | .ret _ | .throw _ => .isTrue trivial
  | .call a _ => inferInstanceAs (Decidable (Waits a = true))

/-- **A lost wake-up**: the worker is blocked in a wait whose predicate is true, and every
call has finished. -/
def LostWakeUp (c : WaitState V) : Prop := c.world.Overdue ∧ ∀ t, Finished (c.prog t)

/-- When the worker blocks, a `stop` or a resume that came after it read the flag has yet
to call `notify_all`. -/
def NotifiesLate (h : WaitHistory V) (w : WaitWorld V) : WaitEvent → Prop
  | .act _ (.inr (.block wait)) _ => w.FlagRaised wait → NotifyPending h
  | _ => True

/-! ## The programs keep to the protocol -/

theorem waitExec_answers {a : waitCalls.Act} {r : Except String (waitCalls.Resp a)}
    (hx : waitExec sv w a r w') : waitProtocol.answers a r := by
  cases a with
  | inl a =>
    cases r with
    | ok v => cases a <;> trivial
    | error e =>
      cases a with
      | memory m =>
        obtain ⟨_, hm, -⟩ := hx
        exact hm
      | _ => trivial
  | inr a =>
    cases r with
    | ok v => trivial
    | error e => cases a <;> exact hx

theorem guardedPush_follows (p : WString) (due : ℤ) :
    waitProtocol.Follows (guardedPush p due) waitProtocol.rest := by
  refine Protocol.follows_ok rfl (fun _ => id) fun _ => ?_
  refine Protocol.follows_ok nofun (fun _ => id) fun _ => ?_
  refine Protocol.follows_ok nofun (fun _ => id) fun _ => ?_
  exact Protocol.follows_ok trivial (fun _ => id) fun _ => Protocol.follows_ret ()

/-- The calls that `guardedCall` may replace: a push, and what needs no mutex. -/
def Call.Unguarded : Call → Prop
  | .memory (.push _ _) | .memory .loadPaused | .memory .now => True
  | .memory _ => False
  | _ => True

/-- A call that needs no mutex. -/
theorem plain_follows {a : Call} (ha : ∀ m, a = .memory m → m = .loadPaused ∨ m = .now) :
    waitProtocol.Follows (plain a) waitProtocol.rest := by
  have hrest : ∀ r, waitProtocol.next waitProtocol.rest (.inl a) r = waitProtocol.rest := by
    intro r
    cases a with
    | memory m => rcases ha m rfl with rfl | rfl <;> cases r <;> rfl
    | _ => cases r <;> rfl
  have hallows : waitProtocol.allows waitProtocol.rest (.inl a) := by
    cases a with
    | memory m => rcases ha m rfl with rfl | rfl <;> trivial
    | _ => trivial
  refine Protocol.follows_call hallows fun r _ => ?_
  rw [hrest]
  cases r with
  | ok v => exact Protocol.follows_ret v
  | error e => exact Protocol.follows_throw e

theorem guardedCall_follows {a : Call} (ha : a.Unguarded) :
    waitProtocol.Follows (guardedCall a) waitProtocol.rest := by
  cases a with
  | memory m =>
    cases m with
    | push p due => exact guardedPush_follows p due
    | loadPaused => exact plain_follows (by rintro m ⟨⟩; exact .inl rfl)
    | now => exact plain_follows (by rintro m ⟨⟩; exact .inr rfl)
    | _ => exact ha.elim
  | _ => exact plain_follows nofun

/-- **The rest of the code**, with its pushes spelt out. -/
theorem expand_follows {c : Task Unit} (hc : c.Only Call.Unguarded) :
    waitProtocol.Follows (c.expand guardedCall) waitProtocol.rest := by
  have hstable : waitProtocol.contract.Stable fun q => q = waitProtocol.rest := by
    rintro q _ rfl hq
    exact hq
  refine Prog.safe_expand hstable (A := Call.Unguarded) ?_ hc rfl
  rintro a _ ha rfl
  exact guardedCall_follows ha

theorem runEntry_follows (e : HeapEntry) :
    waitProtocol.Follows ((runEntry sv e).expand guardedCall) waitProtocol.rest := by
  refine expand_follows ((runEntry_only sv e).mono ?_)
  intro a ha
  cases a with
  | memory m =>
    cases m <;> simp_all [Call.ByEntry, Call.ByTry, Call.ByBatch, Call.Unguarded]
  | _ => trivial

theorem recordEvent_follows (event : AccessEvent) :
    waitProtocol.Follows ((recordEvent sv event).expand guardedCall) waitProtocol.rest := by
  refine expand_follows ((recordEvent_only event).mono ?_)
  intro a ha
  cases a with
  | memory m => cases m <;> simp_all [Call.ByEvents, Call.Unguarded]
  | _ => trivial

theorem setPaused_follows (paused : Bool) :
    waitProtocol.Follows (notifyingSetPaused paused) waitProtocol.rest := by
  refine Protocol.follows_ok trivial (fun _ => id) fun (wasPaused : Bool) => ?_
  cases paused with
  | true =>
    cases wasPaused with
    | true => exact Protocol.follows_ret ()
    | false => exact Protocol.follows_ok trivial (fun _ => id) fun _ => Protocol.follows_ret ()
  | false =>
    cases wasPaused with
    | true => exact Protocol.follows_ok trivial (fun _ => id) fun _ => Protocol.follows_ret ()
    | false => exact Protocol.follows_ret ()

theorem stop_follows : waitProtocol.Follows notifyingStop waitProtocol.rest := by
  refine Protocol.follows_ok trivial (fun _ => id) fun _ => ?_
  refine Protocol.follows_ok trivial (fun _ => id) fun _ => ?_
  refine Protocol.follows_ok trivial (fun _ => id) fun (joinable : Bool) => ?_
  cases joinable with
  | true => exact Protocol.follows_ok rfl (fun _ => id) fun _ => Protocol.follows_ret ()
  | false => exact Protocol.follows_ret ()

theorem waitTurn_follows {q : WaitLocal} (wait : Wait)
    (hq : q = ⟨.held, false⟩ ∨ q = ⟨.heldEmpty, false⟩) :
    waitProtocol.Follows (waitTurn wait) q := by
  have hunlock : ∀ {b : Hold}, b ≠ .out →
      waitProtocol.Follows (condition .unlock) ⟨b, false⟩ := fun hb =>
    Protocol.follows_ok hb (fun _ => id) fun _ => Protocol.follows_ret ()
  obtain ⟨b, hb, rfl⟩ : ∃ b, b ≠ .out ∧ q = ⟨b, false⟩ := by
    rcases hq with rfl | rfl
    · exact ⟨.held, nofun, rfl⟩
    · exact ⟨.heldEmpty, nofun, rfl⟩
  cases wait with
  | pause =>
    refine Protocol.follows_ok trivial (fun _ => id) fun (stop : Bool) => ?_
    cases stop with
    | true => exact hunlock hb
    | false =>
      refine Protocol.follows_ok trivial (fun _ => id) fun (paused : Bool) => ?_
      cases paused with
      | true => exact Protocol.follows_ok ⟨hb, nofun⟩ (fun _ => id) fun _ => Protocol.follows_ret ()
      | false => exact hunlock hb
  | empty =>
    refine Protocol.follows_ok trivial (fun _ => id) fun (stop : Bool) => ?_
    cases stop with
    | true => exact hunlock hb
    | false =>
      refine Protocol.follows_ok hb (fun _ => id) fun (empty : Bool) => ?_
      cases empty with
      | true =>
        -- the block releases the mutex under which the heap was seen empty
        have hallowed : waitProtocol.allows ⟨.heldEmpty, false⟩ (.inr (.block .empty)) :=
          ⟨nofun, fun _ => rfl⟩
        exact Protocol.follows_ok hallowed (fun _ => id) fun _ => Protocol.follows_ret ()
      | false => exact hunlock nofun
  | due => exact hunlock hb

theorem wakeUp_follows (wait : Wait) : waitProtocol.Follows (wakeUp wait) waitProtocol.rest :=
  Protocol.follows_ok rfl (fun _ => id) fun _ => waitTurn_follows wait (.inl rfl)

theorem workerPass_follows : waitProtocol.Follows (workerPass sv) waitProtocol.rest := by
  refine Protocol.follows_ok trivial (fun _ => id) fun (stop : Bool) => ?_
  cases stop with
  | true => exact Protocol.follows_ok trivial (fun _ => id) fun _ => Protocol.follows_ret ()
  | false =>
    refine Protocol.follows_ok rfl (fun _ => id) fun _ => ?_
    refine Protocol.follows_ok trivial (fun _ => id) fun (paused : Bool) => ?_
    cases paused with
    | true => exact waitTurn_follows .pause (.inl rfl)
    | false =>
      refine Protocol.follows_ok nofun (fun _ => id) fun (empty : Bool) => ?_
      cases empty with
      | true => exact waitTurn_follows .empty (.inr rfl)
      | false =>
        refine Protocol.follows_ok nofun (fun _ => id) fun (next : Option HeapEntry) => ?_
        cases next with
        | none =>
          exact Protocol.follows_ok ⟨nofun, nofun⟩ (fun _ => id) fun _ => Protocol.follows_ret ()
        | some next =>
          exact Protocol.follows_ok nofun (fun _ => id) fun _ => runEntry_follows next

/-- **Every operation keeps to the protocol.** -/
theorem body_follows (o : WaitOperation) :
    waitProtocol.Follows (o.body sv) waitProtocol.rest := by
  cases o with
  | pass => exact workerPass_follows
  | wakeUp wait => exact wakeUp_follows wait
  | stop => exact stop_follows
  | setPaused paused => exact setPaused_follows paused
  | recordEvent event => exact recordEvent_follows event

/-! ## The mutex -/

/-- A thread that holds the mutex holds it alone, and the heap is as it saw it. -/
structure Guarded (h : WaitHistory V) (w : WaitWorld V) : Prop where
  locked : ∀ {t}, (waitLocal t h).hold ≠ .out → w.locked = true
  alone : ∀ {t u}, (waitLocal t h).hold ≠ .out → (waitLocal u h).hold ≠ .out → t = u
  empty : ∀ {t}, (waitLocal t h).hold = .heldEmpty → w.service.memory.heap = []

/-- An access to the scheduler's memory. -/
theorem waitExec_memory {m : MemoryCall} {r : Except String m.Answer}
    (hx : waitExec sv w (.inl (.memory m)) r w') :
    ∃ v, r = .ok v ∧ v = (m.run w.service.memory w.service.clock).1 ∧
      w'.service.memory = (m.run w.service.memory w.service.clock).2 ∧
      w'.locked = w.locked ∧ w'.blocked = w.blocked := by
  obtain ⟨service, hx, rfl⟩ := hx
  cases r with
  | error e => exact hx.elim
  | ok v =>
    obtain ⟨-, hv, rfl⟩ := exec_memoryCall hx
    exact ⟨v, rfl, hv, rfl, rfl, rfl⟩

/-- Any other call of the scheduler. -/
theorem waitExec_plain {a : Call} {r : Except String a.Answer} (ha : ∀ m, a ≠ .memory m)
    (hx : waitExec sv w (.inl a) r w') :
    w'.service.memory = w.service.memory ∧ w'.locked = w.locked ∧ w'.blocked = w.blocked := by
  obtain ⟨service, hx, rfl⟩ := hx
  exact ⟨exec_memory hx ha, rfl, rfl⟩

theorem next_plain {q : WaitLocal} {a : Call} (ha : ∀ m, a ≠ .memory m)
    (r : Except String a.Answer) : waitProtocol.next q (.inl a) r = q := by
  cases a with
  | memory m => exact absurd rfl (ha m)
  | _ => cases r <;> rfl

/-- **What an action does to the mutex**: take it, release it, read or write the heap while
holding it, or none of these. -/
theorem hold_cases {q : WaitLocal} {a : waitCalls.Act} {r : Except String (waitCalls.Resp a)}
    (ha : waitProtocol.allows q a) (hx : waitExec sv w a r w') :
    (w.locked = false ∧ w'.locked = true ∧ (waitProtocol.next q a r).hold = .held) ∨
    (q.hold ≠ .out ∧ (waitProtocol.next q a r).hold = .out) ∨
    (q.hold ≠ .out ∧ w'.locked = w.locked ∧
      ((waitProtocol.next q a r).hold = .heldEmpty → w'.service.memory.heap = [])) ∨
    ((waitProtocol.next q a r).hold = q.hold ∧ w'.locked = w.locked ∧
      w'.service.memory.heap = w.service.memory.heap) := by
  cases a with
  | inl a =>
    by_cases hm : ∃ m, a = .memory m
    · obtain ⟨m, rfl⟩ := hm
      obtain ⟨v, rfl, -, hmemory, hlocked, -⟩ := waitExec_memory hx
      rw [hmemory]
      cases m with
      | push p due => exact .inr (.inr (.inl ⟨ha, hlocked, nofun⟩))
      | popDue => exact .inr (.inr (.inl ⟨ha, hlocked, nofun⟩))
      | pushAll jobs => exact ha.elim
      | compareExchangeStop expected desired => exact ha.elim
      | storeStopRequested stop => cases stop <;> exact .inr (.inr (.inr ⟨rfl, hlocked, rfl⟩))
      | exchangePaused paused => cases paused <;> exact .inr (.inr (.inr ⟨rfl, hlocked, rfl⟩))
      | _ => exact .inr (.inr (.inr ⟨rfl, hlocked, rfl⟩))
    · have hplain : ∀ m, a ≠ .memory m := fun m hm' => hm ⟨m, hm'⟩
      obtain ⟨hmemory, hlocked, -⟩ := waitExec_plain hplain hx
      have hnext : waitProtocol.next q (.inl a) r = q := next_plain hplain r
      exact .inr (.inr (.inr
        ⟨congrArg WaitLocal.hold hnext, hlocked, congrArg Memory.heap hmemory⟩))
  | inr a =>
    cases r with
    | error e => cases a <;> exact hx.elim
    | ok v =>
      cases a with
      | lock =>
        obtain ⟨hfree, rfl⟩ := hx
        exact .inl ⟨hfree, rfl, rfl⟩
      | reacquire wait =>
        obtain ⟨hfree, -, rfl⟩ := hx
        exact .inl ⟨hfree, rfl, rfl⟩
      | unlock => exact .inr (.inl ⟨ha, rfl⟩)
      | block wait => exact .inr (.inl ⟨ha.1, rfl⟩)
      | heapEmpty =>
        obtain ⟨rfl, rfl⟩ := hx
        refine .inr (.inr (.inl ⟨ha, rfl, fun hempty => ?_⟩))
        by_contra hne
        simp [waitProtocol, hne] at hempty
      | notifyAll =>
        cases hx
        exact .inr (.inr (.inr ⟨rfl, rfl, rfl⟩))

/-- The action makes no predicate true, and nobody owes a notification for it. -/
def Calm (q : WaitLocal) (a : waitCalls.Act) (r : Except String (waitCalls.Resp a))
    (w w' : WaitWorld V) : Prop :=
  w'.blocked = w.blocked ∧ (waitProtocol.next q a r).owes = q.owes ∧
    ∀ wait, w'.Satisfied wait → w.Satisfied wait

/-- An access to the memory that raises nothing. -/
theorem calm_memory {q : WaitLocal} {m : MemoryCall} {v : m.Answer}
    (howes : (waitProtocol.next q (.inl (.memory m)) (.ok v)).owes = q.owes)
    (hblocked : w'.blocked = w.blocked)
    (hstop : w'.service.memory.stopRequested = true → w.service.memory.stopRequested = true)
    (hpaused : w'.service.memory.paused = false → w.service.memory.paused = false)
    (hheap : w'.service.memory.heap ≠ [] → w.service.memory.heap ≠ []) :
    Calm q (.inl (.memory m)) (.ok v) w w' := by
  refine ⟨hblocked, howes, fun wait => ?_⟩
  cases wait with
  | pause => exact Or.imp hstop hpaused
  | empty => exact Or.imp hstop hheap
  | due => exact id

/-- **What an access to the memory does to the waits**: raise what they are for and owe the
notification, or make no predicate true. -/
theorem owe_memory {q : WaitLocal} {m : MemoryCall} {r : Except String m.Answer}
    (ha : waitProtocol.allows q (.inl (.memory m)))
    (hx : waitExec sv w (.inl (.memory m)) r w') :
    (waitProtocol.next q (.inl (.memory m)) r).owes = true ∨
      Calm q (.inl (.memory m)) r w w' := by
  obtain ⟨v, rfl, hv, hmemory, -, hblocked⟩ := waitExec_memory hx
  cases m with
  | push p due => exact .inl rfl
  | popDue =>
    refine .inr (calm_memory rfl hblocked ?_ ?_ ?_)
    all_goals
      rw [hmemory]
      simp only [MemoryCall.run, Memory.popDue]
      split
      · exact id
      · split <;> simp_all
  | pushAll jobs => exact ha.elim
  | compareExchangeStop expected desired => exact ha.elim
  | storeStopRequested stop =>
    cases stop with
    | true => exact .inl rfl
    | false =>
      refine .inr (calm_memory rfl hblocked ?_ ?_ ?_)
      all_goals rw [hmemory]
      · exact Bool.noConfusion
      · exact id
      · exact id
  | exchangePaused paused =>
    cases paused with
    | true =>
      refine .inr (calm_memory rfl hblocked ?_ ?_ ?_)
      all_goals rw [hmemory]
      · exact id
      · exact Bool.noConfusion
      · exact id
    | false =>
      -- a resume that changes nothing raises nothing
      subst hv
      cases hwas : w.service.memory.paused with
      | true => simp [waitProtocol, MemoryCall.run, hwas]
      | false =>
        refine .inr (calm_memory (by simp [waitProtocol, MemoryCall.run, hwas]) hblocked ?_ ?_ ?_)
        · rw [hmemory]
          exact id
        · exact fun _ => hwas
        · rw [hmemory]
          exact id
  | _ =>
    refine .inr (calm_memory rfl hblocked ?_ ?_ ?_)
    all_goals
      rw [hmemory]
      exact id

/-- **What an action does to the waits**: end a block, raise what they are for and owe the
notification, block, or make no predicate true. -/
theorem owe_cases {q : WaitLocal} {a : waitCalls.Act} {r : Except String (waitCalls.Resp a)}
    (ha : waitProtocol.allows q a) (hx : waitExec sv w a r w') :
    w'.blocked = none ∨ (waitProtocol.next q a r).owes = true ∨
    (∃ wait, a = .inr (.block wait) ∧ w'.service = w.service ∧ w'.blocked = some wait ∧
      (waitProtocol.next q a r).owes = q.owes) ∨ Calm q a r w w' := by
  cases a with
  | inl a =>
    by_cases hm : ∃ m, a = .memory m
    · obtain ⟨m, rfl⟩ := hm
      rcases owe_memory ha hx with howes | hcalm
      · exact .inr (.inl howes)
      · exact .inr (.inr (.inr hcalm))
    · have hplain : ∀ m, a ≠ .memory m := fun m hm' => hm ⟨m, hm'⟩
      obtain ⟨hmemory, -, hblocked⟩ := waitExec_plain hplain hx
      have hnext : waitProtocol.next q (.inl a) r = q := next_plain hplain r
      refine .inr (.inr (.inr ⟨hblocked, congrArg WaitLocal.owes hnext, fun wait => ?_⟩))
      cases wait <;> simp only [WaitWorld.Satisfied, hmemory] <;> exact id
  | inr a =>
    cases r with
    | error e => cases a <;> exact hx.elim
    | ok v =>
      cases a with
      | lock =>
        obtain ⟨-, rfl⟩ := hx
        exact .inr (.inr (.inr ⟨rfl, rfl, fun _ => id⟩))
      | reacquire wait =>
        obtain ⟨-, -, rfl⟩ := hx
        exact .inl rfl
      | unlock =>
        cases hx
        exact .inr (.inr (.inr ⟨rfl, rfl, fun _ => id⟩))
      | block wait =>
        cases hx
        exact .inr (.inr (.inl ⟨wait, rfl, rfl, rfl, rfl⟩))
      | heapEmpty =>
        obtain ⟨-, rfl⟩ := hx
        exact .inr (.inr (.inr ⟨rfl, rfl, fun _ => id⟩))
      | notifyAll =>
        cases hx
        exact .inl rfl

/-! ## Runs -/

/-- The mutex is held by `t` only. -/
theorem Guarded.of_only {t : WaitParty} (hlocked : w.locked = true)
    (honly : ∀ {u}, (waitLocal u h).hold ≠ .out → u = t)
    (hempty : (waitLocal t h).hold = .heldEmpty → w.service.memory.heap = []) : Guarded h w := by
  refine ⟨fun _ => hlocked, fun ht hu => (honly ht).trans (honly hu).symm, fun {u} hu => ?_⟩
  have hut : u = t := honly (by rw [hu]; nofun)
  exact hempty (hut ▸ hu)

/-- **One step keeps the mutex.** -/
theorem guarded_step {l : WaitEvent} {c' : WaitState V} (hI : Guarded h c.world)
    (hk : waitProtocol.Keeps h c.world l) (hs : Step (waiting sv) c l c') :
    Guarded ((c.world, l) :: h) c'.world := by
  cases hs with
  | call hd hm => exact ⟨hI.locked, hI.alone, hI.empty⟩
  | env he =>
    obtain ⟨service, ⟨clock, -, rfl⟩, rfl⟩ := he
    exact ⟨hI.locked, hI.alone, hI.empty⟩
  | @act t a k r w' hp hx =>
    have ha : waitProtocol.allows (waitLocal t h) a := hk t a r rfl
    have hself : waitLocal t ((c.world, .act t a r) :: h) = waitProtocol.next (waitLocal t h) a r :=
      Protocol.localState_self
    have hother : ∀ {u}, u ≠ t → waitLocal u ((c.world, .act t a r) :: h) = waitLocal u h :=
      fun hu => Protocol.localState_ne (Ne.symm hu)
    -- whoever holds the mutex afterwards is the thread itself, or held it before
    have hbefore : ∀ {u}, (waitLocal u ((c.world, .act t a r) :: h)).hold ≠ .out →
        u = t ∨ (u ≠ t ∧ (waitLocal u h).hold ≠ .out) := by
      intro u hu
      by_cases hut : u = t
      · exact .inl hut
      · exact .inr ⟨hut, hother hut ▸ hu⟩
    rcases hold_cases ha hx with ⟨hfree, hlocked, hnext⟩ | ⟨hheld, hnext⟩ |
      ⟨hheld, hlocked, hempty⟩ | ⟨hnext, hlocked, hheap⟩
    · -- taken: nobody held it
      have hout : ∀ u, ¬ (waitLocal u h).hold ≠ .out := fun u hu =>
        Bool.false_ne_true (hfree.symm.trans (hI.locked hu))
      have honly : ∀ {u}, (waitLocal u ((c.world, .act t a r) :: h)).hold ≠ .out → u = t := by
        intro u hu
        rcases hbefore hu with hut | ⟨-, hu⟩
        · exact hut
        · exact absurd hu (hout u)
      refine .of_only hlocked honly fun hu => ?_
      rw [hself, hnext] at hu
      cases hu
    · -- released: nobody else held it
      have hnone : ∀ {u}, ¬ (waitLocal u ((c.world, .act t a r) :: h)).hold ≠ .out := by
        intro u hu
        rcases hbefore hu with rfl | ⟨hut, hu⟩
        · exact hu (by rw [hself, hnext])
        · exact hut (hI.alone hu hheld)
      refine ⟨fun hu => absurd hu hnone, fun hu => absurd hu hnone, fun hu => ?_⟩
      exact absurd (by rw [hu]; nofun) hnone
    · -- used: nobody else holds it
      have honly : ∀ {u}, (waitLocal u ((c.world, .act t a r) :: h)).hold ≠ .out → u = t := by
        intro u hu
        rcases hbefore hu with hut | ⟨hut, hu⟩
        · exact hut
        · exact absurd (hI.alone hu hheld) hut
      refine .of_only (hlocked.trans (hI.locked hheld)) honly fun hu => ?_
      rw [hself] at hu
      exact hempty hu
    · -- nothing changes
      have hsame : ∀ {u},
          (waitLocal u ((c.world, .act t a r) :: h)).hold = (waitLocal u h).hold := by
        intro u
        by_cases hut : u = t
        · rw [hut, hself, hnext]
        · rw [hother hut]
      refine ⟨fun hu => ?_, fun ht hu => ?_, fun hu => ?_⟩
      · exact hlocked.trans (hI.locked (hsame ▸ hu))
      · exact hI.alone (hsame ▸ ht) (hsame ▸ hu)
      · exact hheap.trans (hI.empty (hsame ▸ hu))

/-- An action that neither raises nor notifies leaves the notifications pending. -/
theorem pending_iff {a : waitCalls.Act} {r : Except String (waitCalls.Resp a)}
    (hsame : (waitProtocol.next (waitLocal t h) a r).owes = (waitLocal t h).owes) :
    NotifyPending ((w, .act t a r) :: h) ↔ NotifyPending h := by
  have howes : ∀ u, (waitLocal u ((w, .act t a r) :: h)).owes = (waitLocal u h).owes := by
    intro u
    by_cases hut : u = t
    · rw [hut, waitLocal, Protocol.localState_self, hsame]
    · rw [waitLocal, Protocol.localState_ne (Ne.symm hut)]
  simp only [NotifyPending, howes]

/-- **One step keeps the notification pending**, if a block does not overlook one. -/
theorem noticed_step {l : WaitEvent} {c' : WaitState V} (hG : Guarded h c.world)
    (hI : c.world.Overdue → NotifyPending h) (hk : waitProtocol.Keeps h c.world l)
    (hl : NotifiesLate h c.world l) (hs : Step (waiting sv) c l c') (ho : c'.world.Overdue) :
    NotifyPending ((c.world, l) :: h) := by
  cases hs with
  | call hd hm => exact hI ho
  | env he =>
    obtain ⟨service, ⟨clock, -, rfl⟩, rfl⟩ := he
    exact hI (by obtain ⟨wait, hb, hsat⟩ := ho; exact ⟨wait, hb, by cases wait <;> exact hsat⟩)
  | @act t a k r w' hp hx =>
    have ha : waitProtocol.allows (waitLocal t h) a := hk t a r rfl
    have hself : waitLocal t ((c.world, .act t a r) :: h) = waitProtocol.next (waitLocal t h) a r :=
      Protocol.localState_self
    obtain ⟨wait, hb, hsat⟩ := ho
    rcases owe_cases ha hx with hnone | howes | ⟨wait', rfl, hservice, hblocked, hsame⟩ |
      ⟨hblocked, hsame, hcalm⟩
    · cases hnone.symm.trans hb
    · exact ⟨t, by rw [hself, howes]⟩
    · -- the worker blocks: the flags are as the condition says, the heap as it saw it
      cases hblocked.symm.trans hb
      change w'.Satisfied wait at hsat
      refine (pending_iff hsame).2 (hl ?_)
      cases wait with
      | pause =>
        simp only [WaitWorld.Satisfied, hservice] at hsat
        exact hsat
      | due => exact hsat
      | empty =>
        have hheap : c.world.service.memory.heap = [] := hG.empty (ha.2 rfl)
        simp only [WaitWorld.Satisfied, hservice, hheap] at hsat
        exact hsat.resolve_right fun hne => hne rfl
    · exact (pending_iff hsame).2 (hI ⟨wait, hblocked ▸ hb, hcalm wait hsat⟩)

/-- **In every run that meets the condition no wake-up is overlooked.** -/
theorem noticed_of_run (hb : w.blocked = none) (hrun : Run (waiting sv) (.idle w) h c)
    (hm : Meets NotifiesLate h) : c.world.Overdue → NotifyPending h := by
  have hkeeps : Meets waitProtocol.Keeps h :=
    Protocol.keeps_of_run (fun hx => waitExec_answers hx) (fun _ => body_follows _) hrun
  refine (hrun.invariant (I := fun h c => Guarded h c.world ∧ (c.world.Overdue → NotifyPending h))
    ⟨⟨?_, ?_, ?_⟩, ?_⟩ ?_ (hkeeps.and hm)).2
  · exact fun hh => absurd rfl hh
  · exact fun hh => absurd rfl hh
  · nofun
  · rintro ⟨wait, hw, -⟩
    cases hb.symm.trans hw
  · rintro h c l c' ⟨hG, hI⟩ ⟨hk, hl⟩ hs
    exact ⟨guarded_step hG hk hs, noticed_step hG hI hk hl hs⟩

theorem rests_of_waits {a : waitCalls.Act} {k : Except String (waitCalls.Resp a) → WaitTask Unit}
    {q : WaitLocal} (ha : Waits a = true) (hf : waitProtocol.Follows (.call a k) q) :
    q = waitProtocol.rest := by
  have hallows : ∀ {v}, waitProtocol.answers a (.ok v) → waitProtocol.allows q a :=
    fun hv => (hf.allows hv).1
  cases a with
  | inl a =>
    cases a with
    | memory m =>
      cases m with
      | join => exact hallows (v := ()) trivial
      | _ => cases ha
    | _ => cases ha
  | inr a =>
    cases a with
    | reacquire wait => exact hallows (v := ()) trivial
    | _ => cases ha

/-- A thread whose call has finished owes no notification. -/
theorem finished_owes (hrun : Run (waiting sv) (.idle w) h c) (hf : Finished (c.prog t)) :
    (waitLocal t h).owes = false := by
  have hfollows : waitProtocol.Follows (c.prog t) (waitLocal t h) :=
    Protocol.run (fun hx => waitExec_answers hx) (fun _ => body_follows _) hrun t
  have hrest : waitLocal t h = waitProtocol.rest := by
    cases hprog : c.prog t with
    | ret v => exact hfollows.rests (hprog ▸ trivial)
    | throw e => exact hfollows.rests (hprog ▸ trivial)
    | call a k =>
      rw [hprog] at hf hfollows
      exact rests_of_waits hf hfollows
  rw [hrest]
  rfl

theorem WaitWorld.FlagRaised.satisfied {wait : Wait} (hw : w.FlagRaised wait) :
    w.Satisfied wait := by
  cases wait with
  | pause => exact hw
  | empty => exact .inl hw
  | due => exact hw

/-- **No wake-up is lost**, and in no state of the run will nobody notify a worker that has
work, exactly if every stop and resume that the worker does not see before it blocks
notifies after it has blocked. -/
theorem no_lost_wakeUp_iff (hb : w.blocked = none) (hrun : Run (waiting sv) (.idle w) h c) :
    ((Meets (fun h w _ => ¬ Unnoticed h w) h ∧ ¬ Unnoticed h c.world) ↔ Meets NotifiesLate h) ∧
      (¬ Unnoticed h c.world → ¬ LostWakeUp c) := by
  refine ⟨⟨?_, fun hm => ?_⟩, fun hu hlost => ?_⟩
  · intro hall
    induction hrun with
    | init => trivial
    | @step h c c' l hrun hs ih =>
      refine ⟨?_, ih ⟨hall.1.2, hall.1.1⟩⟩
      unfold NotifiesLate
      split
      · intro hflag
        -- otherwise the worker is overlooked in the next state
        by_contra hnone
        rename_i t wait r
        cases hs with
        | act hp hx =>
          cases r with
          | error e => exact hx.elim
          | ok v =>
            cases hx
            refine hall.2 ⟨⟨wait, rfl, ?_⟩, fun hpending => hnone ((pending_iff rfl).1 hpending)⟩
            have hsat : c.world.Satisfied wait := hflag.satisfied
            cases wait <;> exact hsat
      · trivial
  · have hnoticed : ∀ {h c}, Run (waiting sv) (.idle w) h c → Meets NotifiesLate h →
        ¬ Unnoticed h c.world := fun hrun hm hu => hu.2 (noticed_of_run hb hrun hm hu.1)
    exact ⟨hrun.throughout hnoticed hm, hnoticed hrun hm⟩
  · refine hu ⟨hlost.1, ?_⟩
    rintro ⟨t, ht⟩
    have hfin := finished_owes hrun (hlost.2 t)
    rw [hfin] at ht
    cases ht

/-! ## A stop between the predicate and the block -/

instance (w : WaitWorld V) (wait : Wait) : Decidable (w.FlagRaised wait) :=
  match wait with
  | .pause => inferInstanceAs (Decidable (_ ∨ _))
  | .empty => inferInstanceAs (Decidable (_ = _))
  | .due => .isFalse id

instance (h : WaitHistory V) : Decidable (NotifyPending h) :=
  decidable_of_iff (∃ t ∈ h.filterMap fun x : WaitWorld V × WaitEvent => Protocol.actor x.2,
      (waitLocal t h).owes = true) <| by
    constructor
    · rintro ⟨t, -, ht⟩
      exact ⟨t, ht⟩
    · rintro ⟨t, ht⟩
      refine ⟨t, ?_, ht⟩
      by_contra hnone
      rw [waitLocal, Protocol.localState_of_not_mem hnone] at ht
      cases ht

instance (h : WaitHistory V) (w : WaitWorld V) (l : WaitEvent) : Decidable (NotifiesLate h w l) :=
  match l with
  | .act _ (.inr (.block wait)) _ => inferInstanceAs (Decidable (w.FlagRaised wait → _))
  | .act _ (.inl _) _ | .act _ (.inr .lock) _ | .act _ (.inr .unlock) _
  | .act _ (.inr .heapEmpty) _ | .act _ (.inr (.reacquire _)) _ | .act _ (.inr .notifyAll) _
  | .call _ _ | .env => .isTrue trivial

/-- A worker with nothing to do. -/
def idleWorker : WaitWorld Disk where
  service := { volume := {}, memory := { joinable := true, alive := true }, clock := 0 }

/-- The next `n` calls of a thread. -/
def waitSteps (t : WaitParty) (n : ℕ) : List (Move WaitParty WaitOperation ℤ) :=
  List.replicate n (.act t)

/-- The worker finds the heap empty, evaluates the predicate, and `stop` is called: `early`
or `late` for the worker to block. -/
def stopSchedule (early late : List (Move WaitParty WaitOperation ℤ)) :
    List (Move WaitParty WaitOperation ℤ) :=
  .call .worker .pass :: waitSteps .worker 6 ++ .call (.caller 0) .stop :: early ++
    waitSteps .worker 1 ++ late

theorem exists_waitRun (ms : List (Move WaitParty WaitOperation ℤ))
    (p : WaitHistory Disk × WaitState Disk → Prop) [DecidablePred p]
    (hp : ((waitPlayer (diskService {}) rfl).play ms ([], .idle idleWorker)).any
      (fun x => decide (p x)) = true) :
    ∃ h c, Run (waiting (diskService {})) (.idle idleWorker) h c ∧ p (h, c) :=
  (waitPlayer (diskService {}) rfl).exists_run ms p hp

/-- A stop that comes when the worker is blocked: it wakes up and ends, and `stop` returns. -/
theorem stop_noticed : ∃ h c, Run (waiting (diskService {})) (.idle idleWorker) h c ∧
    c.world.service.memory.joinable = false ∧ Meets (fun h w _ => ¬ Unnoticed h w) h ∧
    ¬ LostWakeUp c := by
  obtain ⟨h, c, hrun, hlate, hjoined⟩ := exists_waitRun
    (stopSchedule [] (waitSteps (.caller 0) 3 ++ .call .worker (.wakeUp .empty) ::
      waitSteps .worker 3 ++ .call .worker .pass :: waitSteps .worker 2 ++
      waitSteps (.caller 0) 1))
    (fun x => Meets NotifiesLate x.1 ∧ x.2.world.service.memory.joinable = false)
    (by decide +kernel)
  obtain ⟨hiff, hlost⟩ := no_lost_wakeUp_iff rfl hrun
  obtain ⟨hall, hnow⟩ := hiff.2 hlate
  exact ⟨h, c, hrun, hjoined, hall, hlost hnow⟩

/-- A stop whose notification comes between the predicate and the block: the worker is
blocked for good, and `stop` waits for it. -/
theorem stop_unnoticed : ∃ h c, Run (waiting (diskService {})) (.idle idleWorker) h c ∧
    c.world.service.memory.alive = true ∧ LostWakeUp c := by
  obtain ⟨h, c, hrun, halive, hblocked, hstop, hworker, hcaller, hstarted⟩ := exists_waitRun
    (stopSchedule (waitSteps (.caller 0) 3) [])
    (fun x => x.2.world.service.memory.alive = true ∧ x.2.world.blocked = some .empty ∧
      x.2.world.service.memory.stopRequested = true ∧ Finished (x.2.prog .worker) ∧
      Finished (x.2.prog (.caller 0)) ∧
      (x.1.filterMap fun y => y.2.starter) = [.caller 0, .worker])
    (by decide +kernel)
  refine ⟨h, c, hrun, halive, ⟨.empty, hblocked, .inl hstop⟩, fun t => ?_⟩
  by_cases ht : t ∈ h.filterMap fun y => y.2.starter
  · rw [hstarted] at ht
    rcases List.mem_cons.1 ht with rfl | ht
    · exact hcaller
    · rw [List.mem_singleton.1 ht]
      exact hworker
  · rw [hrun.idle_of_not_started ht]
    trivial

end SsdCache
