import SsdCache.Proof.Batch
import SsdCache.Proof.Entries

/-!
# The threads of the service and the queue

The event thread, the worker and the control thread move the rows and the heap side by
side. While the worker runs, every row has its heap entry (`Watched`): the event thread
owes the push of a row it wrote, the worker exempts the entry it popped and then the jobs
of its batch, and the control thread loads every row before it starts the worker.

* `Rely`: what each party leaves to the others.
* `recordEvent_safe`, `start_safe`, `stop_safe`: the event thread and the control thread.
-/

namespace SsdCache

open Atomic

variable {V : Type} {sv : Service V} {w w' : World V} {h : History V} {a : Call} {t u : Party}
variable {m m' : Set (WString × ℤ)} {x y z : History V × World V}

/-! ## Conditions -/

/-- The engine answers `Cancelled`. -/
def cancels : Event → Bool
  | .act _ (.copyAndHash _ _ _ _) (.ok r) => CopyResult.action r = .cancelled
  | _ => false

/-- No call throws, a copy is cancelled only after a stop request, and times are in
range. -/
structure Dependable (h : History V) (w : World V) (l : Event) : Prop where
  returns : NoThrow h w l
  cancel : cancels l = true → w.memory.stopRequested = true
  inTime : InTime h w l

/-- When a batch is queried and the row of the entry that started it is still due then,
no more rows are due as early than the batch holds. -/
def BatchFits (sv : Service V) : Condition V := fun h w l =>
  (batchStart l).isSome = true → ∀ e ∈ popped h, ∀ row ∈ w.index.job e.relativePath,
    parseUtc row.dueUtc = some e.dueUtc → w.index.dueBefore row.dueUtc ≤ sv.settings.dueBatchSize

instance (h : History V) (w : World V) (l : Event) : Decidable (Dependable h w l) :=
  decidable_of_iff (NoThrow h w l ∧ (cancels l = true → w.memory.stopRequested = true) ∧
    InTime h w l) ⟨fun ⟨hr, hc, ht⟩ => ⟨hr, hc, ht⟩, fun hl => ⟨hl.returns, hl.cancel, hl.inTime⟩⟩

instance (h : History V) (w : World V) (l : Event) : Decidable (BatchFits sv h w l) :=
  inferInstanceAs (Decidable (_ → ∀ e ∈ popped h, ∀ row ∈ w.index.job e.relativePath, _ → _))

/-- What a step of a run of the service may be. -/
structure Serviced (sv : Service V) (h : History V) (w : World V) (l : Event) : Prop where
  dependable : Dependable h w l
  fits : BatchFits sv h w l
  timed : RowsTimed w.index

/-! ## What the parties leave to each other -/

/-- While the worker runs, every row has its heap entry, but for those in `m`. -/
def Watched (m : Set (WString × ℤ)) (x : History V × World V) : Prop :=
  x.2.memory.alive = true → x.2.memory.stopRequested = false → HasEntries m x

theorem Watched.mono (hm : m ⊆ m') (hI : Watched m x) : Watched m' x :=
  fun ha hs => (hI ha hs).mono hm

/-- What the others leave to the worker. -/
structure WorkerRely (x y : History V × World V) : Prop where
  alive : x.2.memory.alive = true → y.2.memory.alive = true
  watched : ∀ m, Watched m x → Watched m y
  clock : x.2.clock ≤ y.2.clock
  popped : popped y.1 = popped x.1

/-- What the others leave to the control thread. -/
structure ControlRely (x y : History V × World V) : Prop where
  stop : y.2.memory.stopRequested = x.2.memory.stopRequested
  joinable : y.2.memory.joinable = x.2.memory.joinable
  dead : x.2.memory.alive = false →
    y.2.memory.alive = false ∧ ∀ m, HasEntries m x → HasEntries m y

/-- What the others leave to each party. -/
def Rely : Party → History V × World V → History V × World V → Prop
  | .worker => WorkerRely
  | .events => fun x y => owedPush y.1 = owedPush x.1
  | .control => ControlRely
  | .freeProcess => fun _ _ => True

theorem Rely.refl (x : History V × World V) : Rely t x x := by
  cases t with
  | worker => exact ⟨id, fun _ => id, le_rfl, rfl⟩
  | events => exact rfl
  | control => exact ⟨rfl, rfl, fun h => ⟨h, fun _ => id⟩⟩
  | freeProcess => trivial

theorem Rely.trans (hxy : Rely t x y) (hyz : Rely t y z) : Rely t x z := by
  cases t with
  | worker =>
    exact ⟨hyz.alive ∘ hxy.alive, fun m hm => hyz.watched m (hxy.watched m hm),
      hxy.clock.trans hyz.clock, hyz.popped.trans hxy.popped⟩
  | events => exact Eq.trans hyz hxy
  | control =>
    refine ⟨hyz.stop.trans hxy.stop, hyz.joinable.trans hxy.joinable, fun hx => ?_⟩
    obtain ⟨hy, hI⟩ := hxy.dead hx
    exact ⟨(hyz.dead hy).1, fun m hm => (hyz.dead hy).2 m (hI m hm)⟩
  | freeProcess => trivial

/-- A step that touches neither the flags nor the entries. -/
structure Gentle (x y : History V × World V) : Prop where
  alive : y.2.memory.alive = x.2.memory.alive
  stop : y.2.memory.stopRequested = x.2.memory.stopRequested
  joinable : y.2.memory.joinable = x.2.memory.joinable
  clock : x.2.clock ≤ y.2.clock
  popped : SsdCache.popped y.1 = SsdCache.popped x.1
  entries : ∀ m, HasEntries m x → HasEntries m y

theorem Gentle.worker (h : Gentle x y) : WorkerRely x y where
  alive := h.alive.trans
  watched m hm ha hs := h.entries m (hm (h.alive.symm.trans ha) (h.stop.symm.trans hs))
  clock := h.clock
  popped := h.popped

theorem Gentle.control (h : Gentle x y) : ControlRely x y where
  stop := h.stop
  joinable := h.joinable
  dead ha := ⟨h.alive.trans ha, h.entries⟩

theorem Gentle.rely (h : Gentle x y) (howed : owedPush y.1 = owedPush x.1) : Rely u x y := by
  cases u with
  | worker => exact h.worker
  | events => exact howed
  | control => exact h.control
  | freeProcess => trivial

/-- The contract of a party. -/
def serviceContract (sv : Service V) (t : Party) : Contract calls String (History V × World V) :=
  (system sv started).contract (Serviced sv) t (Rely t) (fun x _ _ y => ∀ u, u ≠ t → Rely u x y)
    Rely.refl Rely.trans

/-- A call that leaves the memory is gentle if it keeps the entries. -/
theorem gentle_of_exec {r : Except String a.Answer} (hx : exec sv w a r w')
    (ha : ∀ m, a ≠ .memory m) (hI : ∀ m, HasEntries m (h, w) → HasEntries m (acted w t r h, w')) :
    Gentle (h, w) (acted w t r h, w') where
  alive := congrArg Memory.alive (exec_memory hx ha)
  stop := congrArg Memory.stopRequested (exec_memory hx ha)
  joinable := congrArg Memory.joinable (exec_memory hx ha)
  clock := (exec_clock hx).ge
  popped := popped_of_none (by
    -- only an access of the memory pops
    cases a with
    | memory m => exact absurd rfl (ha m)
    | _ => cases t <;> rfl)
  entries := hI

/-- A call that changes neither rows nor memory keeps the entries. -/
theorem entries_still {r : Except String a.Answer} (hindex : w'.index = w.index)
    (hmemory : ∀ p d, Queued w.memory p d → Queued w'.memory p d)
    (howed : owes (.act t a r) = none) :
    HasEntries m (h, w) → HasEntries m (acted w t r h, w') := by
  intro hI
  refine hI.keep (fun hrow => ⟨_, ?_, rfl⟩) (fun hq => .inl (hmemory _ _ hq))
    (fun _ _ hm => .inr hm) fun ho => .inr ((owedPush_of_none howed).trans ho)
  rw [← hindex]
  exact hrow

/-! ## The event thread -/

/-- A call of a party, which returns and leaves to each of the others what it relies on. -/
theorem service_triple {t : Party} {P E : History V × World V → Prop}
    {R : a.Answer → History V × World V → Prop} (hP : (serviceContract sv t).Stable P)
    (hcall : ∀ {h : History V} {w r w'}, exec sv w a (.ok r) w' →
      Serviced sv h w (.act t a (.ok r)) → P (h, w) →
      (∀ u, u ≠ t → Rely u (h, w) (acted w t (.ok r) h, w')) ∧ R r (acted w t (.ok r) h, w')) :
    (serviceContract sv t).Triple P a (onOk (α := a.Answer) R E) :=
  Machine.triple rfl hP fun {h w r w'} hx hc hy => by
    cases r with
    | error e => exact absurd trivial hc.dependable.returns
    | ok r => exact hcall hx hc hy

/-- A call of the event thread. -/
theorem events_triple {P E : History V × World V → Prop}
    {R : a.Answer → History V × World V → Prop}
    (hP : (serviceContract sv .events).Stable P)
    (hcall : ∀ {h : History V} {w r w'}, exec sv w a (.ok r) w' →
      Serviced sv h w (.act .events a (.ok r)) → P (h, w) →
      Gentle (h, w) (acted w .events (.ok r) h, w') ∧ R r (acted w .events (.ok r) h, w')) :
    (serviceContract sv .events).Triple P a (onOk (α := a.Answer) R E) :=
  service_triple hP fun hx hc hy => by
    obtain ⟨hgentle, hR⟩ := hcall hx hc hy
    refine ⟨fun u hu => ?_, hR⟩
    cases u with
    | worker => exact hgentle.worker
    | events => exact absurd rfl hu
    | control => exact hgentle.control
    | freeProcess => trivial

/-- What the event thread owes. -/
def Owes (q : Option (WString × ℤ)) (x : History V × World V) : Prop := owedPush x.1 = q

theorem stable_owes {q : Option (WString × ℤ)} : (serviceContract sv .events).Stable (Owes q) :=
  fun _ _ hr hx => Eq.trans hr hx

theorem events_loadPaused : (serviceContract sv .events).Triple (Owes none) (.memory .loadPaused)
    (onOk (fun _ => Owes none) (Owes none)) :=
  events_triple stable_owes fun {h w r w'} hx hc hI => by
    obtain ⟨-, -, rfl⟩ := exec_memoryCall hx
    refine ⟨⟨rfl, rfl, rfl, le_rfl, rfl, fun m => ?_⟩, hI⟩
    exact entries_still rfl (fun _ _ => id) rfl

/-- A write that schedules nothing. -/
theorem events_plain {u : Update} (hs : ∀ p, scheduled p (.act .events (.update u) (.ok ())) = none)
    (hup : ∀ p due m, u ≠ .upsertPendingJob p due m)
    (howed : owes (.act .events (.update u) (.ok ())) = none) :
    (serviceContract sv .events).Triple (Owes none) (.update u)
      (onOk (fun _ => Owes none) (Owes none)) :=
  events_triple stable_owes fun {h w r w'} hx hc hI => by
    refine ⟨gentle_of_exec hx (fun _ => nofun) fun m hm => ?_, (owedPush_of_none howed).trans hI⟩
    have hmemory : w'.memory = w.memory := exec_memory hx fun _ => nofun
    refine hm.keep (fun hrow => due_of_exec hx (hs _) (fun due m heq => ?_) hrow)
      (fun hq => .inl (by rwa [hmemory])) (fun _ _ hm => .inr hm)
      fun ho => .inr ((owedPush_of_none howed).trans ho)
    exact hup _ due m (Call.update.inj heq)

theorem events_delete {q : WString} :
    (serviceContract sv .events).Triple (Owes none) (.update (.markRemoved q))
      (onOk (fun _ => Owes none) (Owes none)) :=
  events_plain (fun _ => rfl) (fun _ _ _ => nofun) rfl

/-- An access that schedules no copy. -/
theorem events_observe {event : AccessEvent} {delay : ℤ}
    (hk : ¬ shouldScheduleCopy event.kind = true) :
    (serviceContract sv .events).Triple (Owes none) (.update (.recordAccess event delay))
      (onOk (fun _ => Owes none) (Owes none)) := by
  refine events_plain (fun p => ?_) (fun _ _ _ => nofun) (if_neg hk)
  rw [scheduled_recordAccess, if_neg fun h => hk h.2.2]

/-- An access that schedules a copy: the event thread owes its push. -/
theorem events_access {event : AccessEvent} {delay : ℤ} (hp : event.relativePath ≠ [])
    (hk : shouldScheduleCopy event.kind = true) :
    (serviceContract sv .events).Triple (Owes none) (.update (.recordAccess event delay))
      (onOk (fun _ => Owes (some (event.relativePath,
        floorToSeconds (addSeconds event.observedAt delay)))) (Owes none)) :=
  events_triple stable_owes fun {h w r w'} hx hc hI => by
    have howed : owedPush (acted w .events (a := .update (.recordAccess event delay)) (.ok r) h) =
        some (event.relativePath, floorToSeconds (addSeconds event.observedAt delay)) := by
      simp [owedPush, owes, hk]
    refine ⟨gentle_of_exec hx (fun m h => by cases h) fun m hm => ?_, howed⟩
    refine hm.put (q := event.relativePath) (fun {row d} hrow hd => .inr ?_) (fun hne => ?_)
      (exec_memory hx fun m h => by cases h) (fun _ hm => hm) fun _ ho => ?_
    · -- the row written is read back with the time that is owed
      have hsched : scheduled event.relativePath
          (.act .events (.update (.recordAccess event delay)) (.ok ())) =
          some (addSeconds event.observedAt delay) := by
        rw [scheduled_recordAccess, if_pos ⟨rfl, hp, hk⟩]
      rw [exec_job hx] at hrow
      obtain ⟨row', hrow', hdue⟩ := row_of_scheduled hsched rfl hrow.symm
      cases hrow'
      have hrange := hc.dependable.inTime.due _ (eventPath_of_scheduled hsched) _ hsched
      rw [hdue, parse_format hrange] at hd
      cases hd
      exact howed
    · rw [exec_job hx]
      exact if_neg fun h => hne h.1
    · -- nothing was owed before
      cases hI.symm.trans ho

/-- The push it owes. -/
theorem events_push {q : WString} {due : ℤ} :
    (serviceContract sv .events).Triple (Owes (some (q, floorToSeconds due)))
      (.memory (.push q (floorToSeconds due))) (onOk (fun _ => Owes none) (Owes none)) :=
  events_triple stable_owes fun {h w r w'} hx hc hI => by
    obtain ⟨-, -, rfl⟩ := exec_memoryCall hx
    refine ⟨⟨rfl, rfl, rfl, le_rfl, rfl, fun m hm => ?_⟩, rfl⟩
    refine hm.keep (fun hrow => ⟨_, hrow, rfl⟩) (fun hq => .inl (queued_push.2 (.inl hq)))
      (fun _ _ hm => .inr hm) fun ho => .inl (queued_push.2 (.inr ?_))
    -- the entry pushed is the one that was owed
    cases (show owedPush h = _ from hI).symm.trans ho
    exact ⟨rfl, rfl⟩

/-- **An event** leaves nothing owed. -/
theorem recordEvent_safe (event : AccessEvent) {x : History V × World V} (hx : Owes none x) :
    (recordEvent sv event).Safe (serviceContract sv .events) (fun _ => Owes none) x := by
  have thrown : ∀ (_ : String) z, Owes none z → ∀ z', (serviceContract sv .events).rely z z' →
      Owes none z' := fun _ _ hz _ hr => stable_owes hr hz
  have last {r : Except String Unit} {z : History V × World V}
      (hz : onOk (fun _ => Owes none) (Owes none) r z) : Owes none z := by
    cases r <;> exact hz
  unfold recordEvent
  split
  · exact Prog.safe_ret stable_owes hx
  · rename_i hp
    refine Prog.safe_perform events_loadPaused hx (fun (paused : Bool) z hz => ?_) thrown
    dsimp only [onOk] at hz
    unfold narrowPath
    split
    · by_cases hpaused : paused = true
      · -- a paused service drops the event
        rw [if_pos hpaused]
        exact Prog.safe_ret stable_owes hz
      · rw [if_neg hpaused]
        split
        · -- a deletion marks the file removed
          exact Prog.safe_perform_last (events_delete.mono fun r z hz => last hz)
            (fun _ => stable_owes) hz
        · by_cases hk : shouldScheduleCopy event.kind = true
          · refine Prog.safe_perform (events_access hp hk) hz (fun _ z hz => ?_) thrown
            rw [if_pos hk]
            exact Prog.safe_perform_last (events_push.mono fun r z hz => last hz)
              (fun _ => stable_owes) hz
          · refine Prog.safe_perform (events_observe hk) hz (fun _ z hz => ?_) thrown
            rw [if_neg hk]
            exact Prog.safe_ret stable_owes hz
    · -- a path that does not narrow throws before any call
      exact Prog.safe_throw stable_owes hz

/-! ## The control thread -/

/-- Between two calls of the control thread: no worker runs that was asked to stop, or whose
thread was joined. -/
def Resting (x : History V × World V) : Prop :=
  (x.2.memory.stopRequested = true → x.2.memory.alive = false) ∧
    (x.2.memory.joinable = false → x.2.memory.alive = false)

/-- No stop is requested. -/
def Cleared (x : History V × World V) : Prop :=
  x.2.memory.stopRequested = false ∧ (x.2.memory.joinable = false → x.2.memory.alive = false)

/-- No stop is requested, and no worker runs. -/
def Down (x : History V × World V) : Prop :=
  x.2.memory.stopRequested = false ∧ x.2.memory.alive = false

/-- Before the worker starts: every row has its entry, but for those in `m`. -/
def Loaded (m : Set (WString × ℤ)) (x : History V × World V) : Prop := Down x ∧ HasEntries m x

theorem Cleared.resting (hx : Cleared x) : Resting x :=
  ⟨fun hs => absurd (hs.symm.trans hx.1) nofun, hx.2⟩

theorem stable_resting : (serviceContract sv .control).Stable Resting := fun _ _ hr hx =>
  ⟨fun hs => (hr.dead (hx.1 (hr.stop.symm.trans hs))).1,
    fun hj => (hr.dead (hx.2 (hr.joinable.symm.trans hj))).1⟩

theorem stable_cleared : (serviceContract sv .control).Stable Cleared := fun _ _ hr hx =>
  ⟨hr.stop.trans hx.1, fun hj => (hr.dead (hx.2 (hr.joinable.symm.trans hj))).1⟩

theorem stable_down : (serviceContract sv .control).Stable Down := fun _ _ hr hx =>
  ⟨hr.stop.trans hx.1, (hr.dead hx.2).1⟩

theorem stable_loaded : (serviceContract sv .control).Stable (Loaded m) := fun _ _ hr hx =>
  ⟨stable_down hr hx.1, (hr.dead hx.1.2).2 m hx.2⟩

/-- A call of the control thread. -/
theorem control_triple {P E : History V × World V → Prop}
    {R : a.Answer → History V × World V → Prop} (hP : (serviceContract sv .control).Stable P)
    (hcall : ∀ {h : History V} {w r w'}, exec sv w a (.ok r) w' →
      Serviced sv h w (.act .control a (.ok r)) → P (h, w) →
      WorkerRely (h, w) (acted w .control (.ok r) h, w') ∧ R r (acted w .control (.ok r) h, w')) :
    (serviceContract sv .control).Triple P a (onOk (α := a.Answer) R E) :=
  service_triple hP fun hx hc hy => by
    obtain ⟨hworker, hR⟩ := hcall hx hc hy
    refine ⟨fun u hu => ?_, hR⟩
    cases u with
    | worker => exact hworker
    | events => exact rfl
    | control => exact absurd rfl hu
    | freeProcess => trivial

/-- The control thread's accesses that leave flags and heap. -/
theorem gentle_memory {m : MemoryCall} {r : m.Answer}
    (hx : exec sv w (.memory m) (.ok (show (Call.memory m).Answer from r)) w')
    (halive : (m.run w.memory w.clock).2.alive = w.memory.alive)
    (hstop : (m.run w.memory w.clock).2.stopRequested = w.memory.stopRequested)
    (hjoin : (m.run w.memory w.clock).2.joinable = w.memory.joinable)
    (hheap : ∀ p d, Queued w.memory p d → Queued (m.run w.memory w.clock).2 p d)
    (howed : owes (.act t (.memory m) (.ok r)) = none)
    (hpop : popAnswer (.act t (.memory m) (.ok r)) = none) :
    Gentle (h, w) (acted w t (a := .memory m) (.ok r) h, w') := by
  obtain ⟨-, -, rfl⟩ := exec_memoryCall hx
  exact ⟨halive, hstop, hjoin, le_rfl, popped_of_none hpop, fun m => entries_still rfl hheap howed⟩

theorem control_setPaused {paused : Bool} :
    (serviceContract sv .control).Triple Resting (.memory (.exchangePaused paused))
      (onOk (fun _ => Resting) Resting) :=
  control_triple stable_resting fun {h w r w'} hx hc hI => by
    have hgentle :
        Gentle (h, w) (acted w .control (a := .memory (.exchangePaused paused)) (.ok r) h, w') :=
      gentle_memory hx rfl rfl rfl (fun _ _ => id) rfl rfl
    obtain ⟨-, -, rfl⟩ := exec_memoryCall hx
    exact ⟨hgentle.worker, hI⟩

/-- A step that leaves no worker running keeps what the worker watches. -/
theorem workerRely_dead (hx : x.2.memory.alive = false) (hy : y.2.memory.alive = false)
    (hclock : x.2.clock ≤ y.2.clock) (hpop : popped y.1 = popped x.1) : WorkerRely x y :=
  ⟨fun ha => absurd (ha.symm.trans hx) nofun, fun _ _ ha => absurd (ha.symm.trans hy) nofun,
    hclock, hpop⟩

theorem control_exchange :
    (serviceContract sv .control).Triple Resting (.memory (.compareExchangeStop false false))
      (onOk (fun (exchanged : Bool) x => if exchanged then Cleared x else
        x.2.memory.alive = false) Resting) :=
  control_triple stable_resting fun {h w r w'} hx hc hI => by
    cases hstop : w.memory.stopRequested with
    | false =>
      -- `false` is exchanged for `false`
      have hrun : MemoryCall.run w.memory w.clock (.compareExchangeStop false false) =
          (true, w.memory) := by
        rw [MemoryCall.run, if_pos hstop, ← hstop]
        rfl
      obtain ⟨-, hr, hw⟩ := exec_memoryCall hx
      rw [hrun] at hr hw
      subst hr hw
      refine ⟨Gentle.worker ⟨rfl, rfl, rfl, le_rfl, rfl, fun m => ?_⟩, hstop, hI.2⟩
      exact entries_still rfl (fun _ _ => id) rfl
    | true =>
      -- a stop was requested, so no worker runs
      have hrun : MemoryCall.run w.memory w.clock (.compareExchangeStop false false) =
          (false, w.memory) := by
        rw [MemoryCall.run, if_neg (by rw [hstop]; exact Bool.noConfusion)]
        rfl
      obtain ⟨-, hr, hw⟩ := exec_memoryCall hx
      rw [hrun] at hr hw
      subst hr hw
      exact ⟨workerRely_dead (hI.1 hstop) (hI.1 hstop) le_rfl rfl, hI.1 hstop⟩

/-- `start` takes the request back when no worker runs. -/
theorem control_clear :
    (serviceContract sv .control).Triple (fun x => x.2.memory.alive = false)
      (.memory (.storeStopRequested false)) (onOk (fun _ => Cleared) Resting) :=
  control_triple (fun _ _ hr hx => (hr.dead hx).1) fun {h w r w'} hx hc hI => by
    obtain ⟨-, -, rfl⟩ := exec_memoryCall hx
    exact ⟨workerRely_dead hI hI le_rfl rfl, rfl, fun _ => hI⟩

/-- Whether a worker thread is there to join. -/
theorem control_joinable {P : History V × World V → Prop}
    (hP : (serviceContract sv .control).Stable P)
    (hframe : ∀ {h : History V} {w r}, P (h, w) →
      P (acted w .control (a := .memory .joinable) (.ok r) h, w)) :
    (serviceContract sv .control).Triple P (.memory .joinable)
      (onOk (fun (joinable : Bool) x => P x ∧ x.2.memory.joinable = joinable) Resting) :=
  control_triple hP fun {h w r w'} hx hc hI => by
    have hgentle : Gentle (h, w) (acted w .control (a := .memory .joinable) (.ok r) h, w') :=
      gentle_memory hx rfl rfl rfl (fun _ _ => id) rfl rfl
    obtain ⟨-, hr, rfl⟩ := exec_memoryCall hx
    exact ⟨hgentle.worker, hframe hI, hr.symm⟩

/-- Every row is among the jobs loaded. -/
theorem control_load :
    (serviceContract sv .control).Triple Down (.query .loadPendingJobs)
      (onOk (fun (jobs : List PendingJob) =>
        Loaded {q | ∃ j ∈ jobs, j.relativePath = q.1 ∧ floorToSeconds j.dueUtc = q.2}) Resting) :=
  control_triple stable_down fun {h w r w'} hx hc hI => by
    have hgentle : Gentle (h, w) (acted w .control (a := .query .loadPendingJobs) (.ok r) h, w') :=
      gentle_of_exec hx (fun _ => nofun) fun m => by
        obtain ⟨-, rfl⟩ := hx
        exact entries_still rfl (fun _ _ => id) rfl
    refine ⟨hgentle.worker, ?_⟩
    obtain ⟨hjobs, rfl⟩ := hx
    refine ⟨hI, fun p row d hrow hd => .inr (.inl ?_)⟩
    have hmem := CacheIndex.IsLoadPendingJobs.mem hjobs hrow
    refine ⟨_, hmem, rfl, ?_⟩
    -- the time read is in whole seconds already
    rw [CacheIndex.readPendingJob_dueUtc, hd, Option.getD_some, (hc.timed.parse hrow hd).2.1]

theorem pushAll_flags : ∀ (jobs : List PendingJob) (m : Memory),
    (m.pushAll jobs).alive = m.alive ∧ (m.pushAll jobs).stopRequested = m.stopRequested ∧
      (m.pushAll jobs).joinable = m.joinable
  | [], _ => ⟨rfl, rfl, rfl⟩
  | j :: js, m => pushAll_flags js (m.push j.relativePath (floorToSeconds j.dueUtc))

theorem control_pushAll {jobs : List PendingJob} :
    (serviceContract sv .control).Triple
      (Loaded {q | ∃ j ∈ jobs, j.relativePath = q.1 ∧ floorToSeconds j.dueUtc = q.2})
      (.memory (.pushAll jobs)) (onOk (fun _ => Loaded ∅) Resting) :=
  control_triple stable_loaded fun {h w r w'} hx hc hI => by
    obtain ⟨-, -, rfl⟩ := exec_memoryCall hx
    obtain ⟨halive, hstop, hjoin⟩ := pushAll_flags jobs w.memory
    refine ⟨workerRely_dead hI.1.2 (halive.trans hI.1.2) le_rfl rfl, ?_⟩
    refine ⟨⟨hstop.trans hI.1.1, halive.trans hI.1.2⟩, ?_⟩
    refine hI.2.keep (fun hrow => ⟨_, hrow, rfl⟩) ?_ ?_ ?_
    · exact fun hq => .inl (queued_pushAll.2 (.inl hq))
    · exact fun _ _ hm => .inl (queued_pushAll.2 (.inr hm))
    · exact fun ho => .inr ho

/-- The worker starts with an entry for every row. -/
theorem control_spawn : (serviceContract sv .control).Triple (Loaded ∅) (.memory .spawn)
    (onOk (fun _ => Resting) Resting) :=
  control_triple stable_loaded fun {h w r w'} hx hc hI => by
    obtain ⟨-, -, rfl⟩ := exec_memoryCall hx
    refine ⟨⟨fun ha => absurd (ha.symm.trans hI.1.2) nofun, fun m _ _ _ => ?_, le_rfl, rfl⟩,
      fun hs => absurd (hs.symm.trans hI.1.1) nofun, nofun⟩
    exact (hI.2.mono (Set.empty_subset m)).keep (fun hrow => ⟨_, hrow, rfl⟩) .inl
      (fun _ _ hm => .inr hm) .inr

/-- `stop` asks the worker to end. -/
theorem control_request :
    (serviceContract sv .control).Triple Resting (.memory (.storeStopRequested true))
      (onOk (fun _ x => x.2.memory.joinable = false → x.2.memory.alive = false) Resting) :=
  control_triple stable_resting fun {h w r w'} hx hc hI => by
    obtain ⟨-, -, rfl⟩ := exec_memoryCall hx
    exact ⟨⟨id, fun _ _ _ => nofun, le_rfl, rfl⟩, hI.2⟩

/-- When the thread is joined, it has ended. -/
theorem control_join {P : History V × World V → Prop}
    (hP : (serviceContract sv .control).Stable P) :
    (serviceContract sv .control).Triple P (.memory .join) (onOk (fun _ => Resting) Resting) :=
  control_triple hP fun {h w r w'} hx hc hI => by
    obtain ⟨hdead, -, rfl⟩ := exec_memoryCall hx
    exact ⟨workerRely_dead hdead hdead le_rfl rfl, fun _ => hdead, fun _ => hdead⟩

theorem resting_rely (_ : String) : ∀ z, Resting z → ∀ z',
    (serviceContract sv .control).rely z z' → Resting z' := fun _ hz _ hr => stable_resting hr hz

theorem clearStopRequest_safe (hx : Resting x) :
    clearStopRequest.Safe (serviceContract sv .control) (onOk (fun _ => Cleared) Resting) x := by
  refine Prog.safe_perform control_exchange hx (fun (exchanged : Bool) z hz => ?_) resting_rely
  cases exchanged with
  | true => exact Prog.safe_ret stable_cleared hz
  | false =>
    exact Prog.safe_perform_last control_clear
      (Contract.stable_onOk (fun _ => stable_cleared) stable_resting) hz

theorem loadExistingJobs_safe (hx : Down x) :
    loadExistingJobs.Safe (serviceContract sv .control) (onOk (fun _ => Loaded ∅) Resting) x :=
  Prog.safe_perform control_load hx (fun _ _ hz => Prog.safe_perform_last control_pushAll
    (Contract.stable_onOk (fun _ => stable_loaded) stable_resting) hz) resting_rely

/-- The rest of a sequence of the control thread. -/
theorem control_bind {α β : Type} {I : α → History V × World V → Prop}
    {J : β → History V × World V → Prop} {c : Task α} {f : α → Task β}
    (hc : c.Safe (serviceContract sv .control) (onOk I Resting) x)
    (hf : ∀ v z, I v z → (f v).Safe (serviceContract sv .control) (onOk J Resting) z) :
    (c.bind f).Safe (serviceContract sv .control) (onOk J Resting) x := by
  refine Prog.safe_bind (Prog.safe_mono (fun r z hz => ?_) hc)
  cases r with
  | ok v => exact hf v z hz
  | error e => exact fun z' hr => stable_resting hr hz

/-- **`start`** loads every row before the worker runs. -/
theorem start_safe (hx : Resting x) :
    start.Safe (serviceContract sv .control) (onOk (fun _ => Resting) Resting) x := by
  refine control_bind (clearStopRequest_safe hx) fun _ z hz => ?_
  refine Prog.safe_perform (control_joinable stable_cleared id) hz (fun (joinable : Bool) z hz => ?_)
    resting_rely
  cases joinable with
  | true => exact Prog.safe_ret stable_resting hz.1.resting
  | false =>
    -- no thread to join: no worker runs while the rows are loaded
    refine control_bind (loadExistingJobs_safe ⟨hz.1.1, hz.1.2 hz.2⟩) fun _ z hz => ?_
    exact Prog.safe_perform_last control_spawn
      (Contract.stable_onOk (fun _ => stable_resting) stable_resting) hz

/-- **`stop`** returns when the worker has ended. -/
theorem stop_safe (hx : Resting x) :
    stop.Safe (serviceContract sv .control) (onOk (fun _ => Resting) Resting) x := by
  have hstable : (serviceContract sv .control).Stable fun x : History V × World V =>
      x.2.memory.joinable = false → x.2.memory.alive = false :=
    fun _ _ hr hx hj => (hr.dead (hx (hr.joinable.symm.trans hj))).1
  refine Prog.safe_perform control_request hx (fun _ z hz => ?_) resting_rely
  refine Prog.safe_perform (control_joinable hstable id) hz (fun (joinable : Bool) z hz => ?_)
    resting_rely
  cases joinable with
  | true =>
    exact Prog.safe_perform_last (control_join fun _ _ hr hx =>
      ⟨hstable hr hx.1, hr.joinable.trans hx.2⟩)
      (Contract.stable_onOk (fun _ => stable_resting) stable_resting) hz
  | false =>
    have hdead := hz.1 hz.2
    exact Prog.safe_ret stable_resting ⟨fun _ => hdead, fun _ => hdead⟩

theorem setPaused_safe {paused : Bool} (hx : Resting x) :
    (setPaused paused).Safe (serviceContract sv .control) (onOk (fun _ => Resting) Resting) x :=
  Prog.safe_perform control_setPaused hx (fun _ _ hz => Prog.safe_ret stable_resting hz) resting_rely

end SsdCache
