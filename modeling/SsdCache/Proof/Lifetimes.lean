import SsdCache.Atomic.Place
import SsdCache.Proof.Service
import SsdCache.Proof.StartupMode
import SsdCache.Spec.ServiceMain

/-!
# The lives of the service's objects

`run_worker` has the cache index, the scheduler and the activity source on its stack, and
three other threads use them: the worker, the reader, and the control thread through
`scheduler_`. What `run_worker` has made and started is its place (`Stage`); a pass of the
worker or of the reader is a place where the thread lives.

* `objects_alive`: **no thread uses an object before or after its life**, and the threads
  have ended when `service_main` has, in every run in which the activity source starts.
-/

namespace SsdCache.ServiceMain

open Atomic

variable {V : Type} {s : Hosting V} {w w' : MainWorld V} {h : MainHistory V} {c : MainState V}

/-! ## What is claimed -/

/-- The threads that use the objects have ended. -/
def MainWorld.Quiet (w : MainWorld V) : Prop :=
  w.host.service.memory.alive = false ∧ w.readerAlive = false

/-- What a call uses is alive, and what it destroys is not used any more. -/
def Needs (w : MainWorld V) : mainCalls.Act → Prop
  | .inl (.inl (.update _)) | .inl (.inl (.query _)) => w.life .cacheIndex = .alive
  | .inl (.inl _) | .inl (.inr .publish) => w.life .scheduler = .alive
  | .inl (.inr (.setPublishedPaused _)) =>
    w.host.published = true → w.life .scheduler = .alive
  | .inl (.inr .getMessage) => w.life .activitySource = .alive
  | .inr .readerJoinable | .inr .connectPort | .inr .registerService | .inr (.storeStopRequested _)
  | .inr .loadStopRequested | .inr .spawnReader | .inr .cancelSynchronousIo | .inr .portOpen
  | .inr .closePort | .inr .joinReader | .inr .exitReader => w.life .activitySource = .alive
  | .inr (.construct o) => w.life o = .unborn
  | .inr (.destroy .activitySource) => w.readerAlive = false
  | .inr (.destroy .scheduler) => w.Quiet ∧ w.host.published = false
  | .inr (.destroy .cacheIndex) => w.Quiet
  | _ => True

def UsesAlive (_ : MainHistory V) (w : MainWorld V) (l : MainEvent) : Prop :=
  ∀ t a r, l = .act t a r → Needs w a

/-- The driver accepts the connection and the registration, and the reader gets its thread. -/
def startingSource : MainEvent → Bool
  | .act _ (.inr .connectPort) (.ok (connected : Bool)) => connected
  | .act _ (.inr .registerService) (.ok (registered : Bool)) => registered
  | .act _ (.inr .spawnReader) (.error _) => false
  | _ => true

abbrev SourceStarts (_ : MainHistory V) (_ : MainWorld V) (l : MainEvent) : Prop :=
  startingSource l = true

/-- `run_worker` has taken down what it made. -/
structure Ended (w : MainWorld V) : Prop where
  quiet : w.Quiet
  lives : ∀ o, w.life o ≠ .alive
  published : w.host.published = false
  port : w.isPortOpen = false

/-! ## The world -/

/-- What `run_worker` has made and started; for the worker and the reader, whether they are
in a pass. -/
structure Stage where
  cacheIndex : Life := .unborn
  scheduler : Life := .unborn
  source : Life := .unborn
  published : Bool := false
  workerJoinable : Bool := false
  readerJoinable : Bool := false
  portOpen : Bool := false
  busy : Bool := false

/-- The parts of the world that only `service_main` changes. -/
def MainWorld.stage (w : MainWorld V) : Stage where
  cacheIndex := w.life .cacheIndex
  scheduler := w.life .scheduler
  source := w.life .activitySource
  published := w.host.published
  workerJoinable := w.host.service.memory.joinable
  readerJoinable := w.readerJoinable
  portOpen := w.isPortOpen

/-- How the lives hang together, while the worker and the reader live or not. -/
structure Sound (q : Stage) (worker reader : Bool) : Prop where
  reader : reader = true → q.source = .alive ∧ q.readerJoinable = true
  worker : worker = true → q.scheduler = .alive ∧ q.workerJoinable = true
  source : q.source = .alive → q.scheduler = .alive
  scheduler : q.scheduler = .alive → q.cacheIndex = .alive
  published : q.published = true → q.scheduler = .alive

def MainWorld.Sound (w : MainWorld V) : Prop :=
  ServiceMain.Sound w.stage w.host.service.memory.alive w.readerAlive

/-- The memory calls that neither start nor end the worker. -/
def MemoryPlain : MemoryCall → Prop
  | .spawn | .join | .exit => False
  | _ => True

/-- The calls that change no life. -/
def Plain : mainCalls.Act → Prop
  | .inl (.inl (.memory a)) => MemoryPlain a
  | .inl (.inr .publish) => False
  | .inr (.construct _) | .inr (.destroy _) | .inr .unpublish | .inr .connectPort
  | .inr .closePort | .inr .spawnReader | .inr .joinReader | .inr .exitReader => False
  | _ => True

/-- No life has changed. -/
structure Same (w w' : MainWorld V) : Prop where
  stage : w'.stage = w.stage
  reader : w'.readerAlive = w.readerAlive
  worker : w'.host.service.memory.alive = w.host.service.memory.alive

theorem Same.sound (he : Same w w') (hw : w.Sound) : w'.Sound := by
  unfold MainWorld.Sound
  rw [he.stage, he.reader, he.worker]
  exact hw

theorem run_plain {m : Memory} {clock : ℤ} {a : MemoryCall} (ha : MemoryPlain a) :
    (a.run m clock).2.alive = m.alive ∧ (a.run m clock).2.joinable = m.joinable := by
  cases a with
  | spawn | join | exit => exact ha.elim
  | compareExchangeStop expected desired =>
    simp only [MemoryCall.run]
    split
    · exact ⟨rfl, rfl⟩
    · exact ⟨rfl, rfl⟩
  | popDue =>
    simp only [MemoryCall.run, Memory.popDue]
    split
    · exact ⟨rfl, rfl⟩
    · split
      · exact ⟨rfl, rfl⟩
      · exact ⟨rfl, rfl⟩
  | pushAll jobs =>
    obtain ⟨halive, -, hjoinable⟩ := pushAll_flags jobs m
    exact ⟨halive, hjoinable⟩
  | _ => exact ⟨rfl, rfl⟩

/-- A plain call of the service leaves the worker as it is. -/
theorem exec_plain {sv : Service V} {w w' : World V} {a : Call} {r : Except String a.Answer}
    (ha : ∀ m, a = .memory m → MemoryPlain m) (hx : exec sv w a r w') :
    w'.memory.alive = w.memory.alive ∧ w'.memory.joinable = w.memory.joinable := by
  cases a with
  | memory m =>
    cases r with
    | error e => exact hx.elim
    | ok v =>
      obtain ⟨-, -, rfl⟩ := exec_memoryCall hx
      exact run_plain (ha m rfl)
  | _ =>
    rw [exec_memory hx fun _ => nofun]
    exact ⟨rfl, rfl⟩

/-- A plain call of the host leaves the worker and the scheduler's pointer. -/
theorem does_plain {faults : Faults} {w w' : HostWorld V} {a : HostCall}
    {r : Except String a.Answer} (ha : a ≠ .publish) (hx : a.Does faults w r w') :
    w'.published = w.published ∧ w'.service.memory.alive = w.service.memory.alive ∧
      w'.service.memory.joinable = w.service.memory.joinable := by
  cases r with
  | error e =>
    cases a with
    | loadConfig | openIndex | connect => obtain ⟨-, rfl⟩ := hx; exact ⟨rfl, rfl, rfl⟩
    | saveConfig config => obtain ⟨-, config', rfl⟩ := hx; exact ⟨rfl, rfl, rfl⟩
    | _ => exact hx.elim
  | ok v =>
    cases a with
    | publish => exact absurd rfl ha
    | loadConfig | loadCachingActive | controlService => obtain ⟨-, rfl⟩ := hx; exact ⟨rfl, rfl, rfl⟩
    | drive a => obtain ⟨drives, -, rfl⟩ := hx; exact ⟨rfl, rfl, rfl⟩
    | setPublishedPaused paused =>
      obtain rfl := hx
      split
      · exact ⟨rfl, rfl, rfl⟩
      · exact ⟨rfl, rfl, rfl⟩
    | _ => obtain rfl := hx; exact ⟨rfl, rfl, rfl⟩

/-- **A plain call changes no life.** -/
theorem same_of_exec {a : mainCalls.Act} {r : Except String (mainCalls.Resp a)} (ha : Plain a)
    (hx : mainExec s w a r w') : Same w w' := by
  rcases a with (a | a) | a
  · obtain ⟨-, host, ⟨service, hservice, rfl⟩, rfl⟩ := hx
    obtain ⟨halive, hjoinable⟩ := exec_plain (fun m hm => by subst hm; exact ha) hservice
    exact ⟨by simp only [MainWorld.stage, hjoinable], rfl, halive⟩
  · obtain ⟨-, host, hhost, rfl⟩ := hx
    obtain ⟨hpublished, halive, hjoinable⟩ := does_plain (fun he => by subst he; exact ha) hhost
    exact ⟨by simp only [MainWorld.stage, hpublished, hjoinable], rfl, halive⟩
  · obtain ⟨-, hdoes⟩ := hx
    cases r with
    | error e =>
      cases a with
      | spawnReader => exact ha.elim
      | _ => exact hdoes.elim
    | ok v =>
      cases a with
      | construct | destroy | unpublish | connectPort | closePort => exact ha.elim
      | spawnReader | joinReader | exitReader => exact ha.elim
      | createStopEvent =>
        obtain rfl := hdoes
        split
        · exact ⟨rfl, rfl, rfl⟩
        · exact ⟨rfl, rfl, rfl⟩
      | waitForStopEvent | readerJoinable | loadStopRequested | portOpen =>
        obtain ⟨-, rfl⟩ := hdoes
        exact ⟨rfl, rfl, rfl⟩
      | _ =>
        obtain rfl := hdoes
        exact ⟨rfl, rfl, rfl⟩

/-! ## Places -/

/-- The calls that `service_main` may make. -/
def MainAllows (q : Stage) : mainCalls.Act → Prop
  | .inl (.inl (.update _)) | .inl (.inl (.query _)) => q.cacheIndex = .alive
  | .inl (.inl (.memory .exit)) => False
  | .inl (.inl _) | .inl (.inr .publish) => q.scheduler = .alive
  | .inl (.inr .getMessage) => False
  | .inr (.construct .cacheIndex) => q.cacheIndex = .unborn
  | .inr (.construct .scheduler) => q.cacheIndex = .alive ∧ q.scheduler = .unborn
  | .inr (.construct .activitySource) => q.scheduler = .alive ∧ q.source = .unborn
  | .inr (.destroy .cacheIndex) => q.scheduler ≠ .alive
  | .inr (.destroy .scheduler) =>
    q.source ≠ .alive ∧ q.published = false ∧ q.workerJoinable = false
  | .inr (.destroy .activitySource) => q.readerJoinable = false
  | .inr .readerJoinable | .inr .connectPort | .inr .registerService | .inr (.storeStopRequested _)
  | .inr .spawnReader | .inr .cancelSynchronousIo | .inr .portOpen
  | .inr .closePort | .inr .joinReader => q.source = .alive
  | .inr .loadStopRequested | .inr .exitReader | .inr .terminate => False
  | _ => True

/-- The calls that the worker makes in a pass. -/
def WorkerAllows : mainCalls.Act → Prop
  | .inl (.inl (.memory .spawn)) | .inl (.inl (.memory .join)) => False
  | .inl (.inl _) => True
  | _ => False

/-- The calls that the reader makes in a pass. -/
def ReaderAllows : mainCalls.Act → Prop
  | .inl (.inl (.memory .now)) => True
  | .inl (.inl a) => a.ByEvents
  | .inl (.inr .loadCachingActive) | .inl (.inr (.processImage _)) | .inl (.inr .getMessage) => True
  | .inr .loadStopRequested | .inr .exitReader => True
  | _ => False

/-- The calls that the handler of a control makes. -/
def ControlAllows : mainCalls.Act → Prop
  | .inl (.inr .publish) | .inl (.inr .getMessage) => False
  | .inl (.inr _) | .inr (.storeStatus _ _) | .inr .reportStatus => True
  | _ => False

/-- What `service_main` has made after a call. -/
def Stage.next (q : Stage) : mainCalls.Act → Stage
  | .inl (.inl (.memory .spawn)) => { q with workerJoinable := true }
  | .inl (.inl (.memory .join)) => { q with workerJoinable := false }
  | .inl (.inr .publish) => { q with published := true }
  | .inr .unpublish => { q with published := false }
  | .inr (.construct .cacheIndex) => { q with cacheIndex := .alive }
  | .inr (.construct .scheduler) => { q with scheduler := .alive }
  | .inr (.construct .activitySource) => { q with source := .alive }
  | .inr (.destroy .cacheIndex) => { q with cacheIndex := .destroyed }
  | .inr (.destroy .scheduler) => { q with scheduler := .destroyed }
  | .inr (.destroy .activitySource) => { q with source := .destroyed }
  | .inr .connectPort => { q with portOpen := true }
  | .inr .closePort => { q with portOpen := false }
  | .inr .spawnReader => { q with readerJoinable := true }
  | .inr .joinReader => { q with readerJoinable := false }
  | _ => q

/-- The answers that it gets. -/
def MainAnswers (q : Stage) : (a : mainCalls.Act) → Except String (mainCalls.Resp a) → Prop
  | .inl (.inl (.memory .joinable)), .ok (joinable : Bool) => joinable = q.workerJoinable
  | .inr .readerJoinable, .ok (joinable : Bool) => joinable = q.readerJoinable
  | .inr .portOpen, .ok (isOpen : Bool) => isOpen = q.portOpen
  | .inr .connectPort, .ok (connected : Bool) => connected = true
  | .inr .registerService, .ok (registered : Bool) => registered = true
  | .inl (.inl (.memory _)), .error _ | .inr _, .error _ => False
  | .inl (.inr .publish), .error _ | .inl (.inr (.storeCachingActive _)), .error _ => False
  | .inl (.inr (.setPublishedPaused _)), .error _ => False
  | _, _ => True

/-- A pass is over when its thread's function returns. -/
def Stage.pass (q : Stage) : mainCalls.Act → Stage
  | .inl (.inl (.memory .exit)) | .inr .exitReader => { q with busy := false }
  | _ => q

/-- What the steps of the others leave to a thread. -/
def Leaves (t : HostParty) (w w' : MainWorld V) : Prop :=
  (w.Sound → w'.Sound) ∧
    match t with
    | .serviceMain => w'.stage = w.stage
    | .worker => w.host.service.memory.alive = true → w'.host.service.memory.alive = true
    | .reader => w.readerAlive = true → w'.readerAlive = true
    | .controls => True

/-- What a thread knows. -/
def Knows (t : HostParty) (q : Stage) (w : MainWorld V) : Prop :=
  w.Sound ∧
    match t with
    | .serviceMain => w.stage = q
    | .worker => q.busy = true → w.host.service.memory.alive = true
    | .reader => q.busy = true → w.readerAlive = true
    | .controls => True

def Allows (t : HostParty) (q : Stage) (a : mainCalls.Act) : Prop :=
  match t with
  | .serviceMain => MainAllows q a
  | .worker => a = .inr .terminate ∨ q.busy = true ∧ WorkerAllows a
  | .reader => a = .inr .terminate ∨ q.busy = true ∧ ReaderAllows a
  | .controls => ControlAllows a

def Moves (t : HostParty) (q : Stage) (a : mainCalls.Act) (r : Except String (mainCalls.Resp a))
    (q' : Stage) : Prop :=
  match t with
  | .serviceMain => MainAnswers q a r ∧ q' = q.next a
  | .worker | .reader => q' = q.pass a
  | .controls => q' = q

theorem Same.leaves (he : Same w w') (t : HostParty) : Leaves t w w' := by
  refine ⟨he.sound, ?_⟩
  cases t with
  | serviceMain => exact he.stage
  | controls => trivial
  | worker => exact fun ha => he.worker.trans ha
  | reader => exact fun ha => he.reader.trans ha

theorem Leaves.trans {t : HostParty} {w'' : MainWorld V} (h₁ : Leaves t w w')
    (h₂ : Leaves t w' w'') : Leaves t w w'' := by
  refine ⟨fun hw => h₂.1 (h₁.1 hw), ?_⟩
  cases t with
  | serviceMain => exact h₂.2.trans h₁.2
  | controls => trivial
  | worker => exact fun ha => h₂.2 (h₁.2 ha)
  | reader => exact fun ha => h₂.2 (h₁.2 ha)

theorem Knows.stable {t : HostParty} {q : Stage} (hr : Leaves t w w') (hq : Knows t q w) :
    Knows t q w' := by
  refine ⟨hr.1 hq.1, ?_⟩
  cases t with
  | serviceMain => exact hr.2.trans hq.2
  | controls => trivial
  | worker => exact fun hb => hr.2 (hq.2 hb)
  | reader => exact fun hb => hr.2 (hq.2 hb)

/-! ### `service_main` -/

/-- A call of `service_main` brings it to its next stage. -/
structure Advances (w : MainWorld V) (a : mainCalls.Act) (w' : MainWorld V) : Prop where
  stage : w'.stage = w.stage.next a
  worker : w.host.service.memory.alive = true → w'.host.service.memory.alive = true
  reader : w.readerAlive = true → w'.readerAlive = true
  sound : w'.Sound

theorem next_plain {a : mainCalls.Act} (ha : Plain a) (q : Stage) : q.next a = q := by
  rcases a with (a | a) | a
  · cases a with
    | memory m =>
      cases m with
      | spawn | join => exact ha.elim
      | _ => rfl
    | _ => rfl
  · cases a with
    | publish => exact ha.elim
    | _ => rfl
  · cases a with
    | construct | destroy | unpublish | connectPort | closePort => exact ha.elim
    | spawnReader | joinReader => exact ha.elim
    | _ => rfl

theorem advances_plain {a : mainCalls.Act} {r : Except String (mainCalls.Resp a)} (hw : w.Sound)
    (ha : Plain a) (hx : mainExec s w a r w') : Advances w a w' := by
  have hsame : Same w w' := same_of_exec ha hx
  refine ⟨?_, fun h => hsame.worker.trans h, fun h => hsame.reader.trans h, hsame.sound hw⟩
  rw [next_plain ha]
  exact hsame.stage

theorem not_alive_of_joinable (hw : w.Sound) (hjoinable : w.host.service.memory.joinable = false) :
    w.host.service.memory.alive = false := by
  refine Bool.eq_false_of_not_eq_true fun halive => ?_
  exact absurd (hw.worker halive).2 (ne_true_of_eq_false hjoinable)

theorem not_reading_of_joinable (hw : w.Sound) (hjoinable : w.readerJoinable = false) :
    w.readerAlive = false := by
  refine Bool.eq_false_of_not_eq_true fun halive => ?_
  exact absurd (hw.reader halive).2 (ne_true_of_eq_false hjoinable)

theorem not_reading_of_source (hw : w.Sound) (hsource : w.life .activitySource ≠ .alive) :
    w.readerAlive = false :=
  Bool.eq_false_of_not_eq_true fun halive => hsource (hw.reader halive).1

theorem quiet_of_scheduler (hw : w.Sound) (hscheduler : w.life .scheduler ≠ .alive) : w.Quiet := by
  refine ⟨Bool.eq_false_of_not_eq_true fun halive => hscheduler (hw.worker halive).1, ?_⟩
  exact not_reading_of_source hw fun hsource => hscheduler (hw.source hsource)

theorem advances_memory {m : MemoryCall} {r : Except String m.Answer} (hw : w.Sound)
    (ha : MainAllows w.stage (.inl (.inl (.memory m))))
    (hx : mainExec s w (.inl (.inl (.memory m))) r w') :
    Advances w (.inl (.inl (.memory m))) w' := by
  by_cases hplain : MemoryPlain m
  · exact advances_plain hw hplain hx
  obtain ⟨-, host, ⟨service, hservice, rfl⟩, rfl⟩ := hx
  cases r with
  | error e => exact hservice.elim
  | ok v =>
    obtain ⟨henabled, -, rfl⟩ := exec_memoryCall hservice
    cases m with
    | spawn =>
      have hscheduler : w.life .scheduler = .alive := ha
      exact ⟨rfl, fun _ => rfl, id,
        { hw with worker := fun _ => ⟨hscheduler, rfl⟩ }⟩
    | join =>
      have hquiet : w.host.service.memory.alive = false := henabled
      refine ⟨rfl, id, id, { hw with worker := fun halive => ?_ }⟩
      exact absurd halive (ne_true_of_eq_false hquiet)
    | exit => exact ha.elim
    | _ => exact absurd trivial hplain

theorem advances_construct {o : Object} {r : Except String Unit} (hw : w.Sound)
    (ha : MainAllows w.stage (.inr (.construct o))) (hx : mainExec s w (.inr (.construct o)) r w') :
    Advances w (.inr (.construct o)) w' := by
  obtain ⟨-, hdoes⟩ := hx
  cases r with
  | error e => exact hdoes.elim
  | ok v =>
    obtain rfl := hdoes
    cases o with
    | cacheIndex => exact ⟨rfl, id, id, { hw with scheduler := fun _ => rfl }⟩
    | scheduler =>
      obtain ⟨hindex, -⟩ : w.life .cacheIndex = .alive ∧ _ := ha
      exact ⟨rfl, id, id, ⟨hw.reader, fun h => ⟨rfl, (hw.worker h).2⟩, fun _ => rfl, fun _ => hindex,
        fun _ => rfl⟩⟩
    | activitySource =>
      obtain ⟨hscheduler, -⟩ : w.life .scheduler = .alive ∧ _ := ha
      exact ⟨rfl, id, id, ⟨fun h => ⟨rfl, (hw.reader h).2⟩, hw.worker, fun _ => hscheduler,
        hw.scheduler, hw.published⟩⟩

theorem advances_destroy {o : Object} {r : Except String Unit} (hw : w.Sound)
    (ha : MainAllows w.stage (.inr (.destroy o))) (hx : mainExec s w (.inr (.destroy o)) r w') :
    Needs w (.inr (.destroy o)) ∧ Advances w (.inr (.destroy o)) w' := by
  obtain ⟨-, hdoes⟩ := hx
  cases r with
  | error e => exact hdoes.elim
  | ok v =>
    obtain rfl := hdoes
    cases o with
    | cacheIndex =>
      have hscheduler : w.life .scheduler ≠ .alive := ha
      refine ⟨quiet_of_scheduler hw hscheduler, rfl, id, id, ?_⟩
      exact ⟨hw.reader, hw.worker, hw.source, fun h => absurd h hscheduler, hw.published⟩
    | scheduler =>
      obtain ⟨hsource, hpublished, hjoinable⟩ :
        w.life .activitySource ≠ .alive ∧ w.host.published = false ∧
          w.host.service.memory.joinable = false := ha
      have hworker : w.host.service.memory.alive = false := not_alive_of_joinable hw hjoinable
      refine ⟨⟨⟨hworker, not_reading_of_source hw hsource⟩, hpublished⟩, rfl, id, id, ?_⟩
      refine ⟨hw.reader, fun h => absurd h (ne_true_of_eq_false hworker), fun h => absurd h hsource,
        fun h => ?_, fun h => absurd h (ne_true_of_eq_false hpublished)⟩
      cases h
    | activitySource =>
      have hjoinable : w.readerJoinable = false := ha
      have hreader : w.readerAlive = false := not_reading_of_joinable hw hjoinable
      refine ⟨hreader, rfl, id, id, ?_⟩
      refine ⟨fun h => absurd h (ne_true_of_eq_false hreader), hw.worker, fun h => ?_,
        hw.scheduler, hw.published⟩
      cases h

theorem advances_own {a : MainCall} {r : Except String a.Answer} {t : HostParty} (hw : w.Sound)
    (ha : MainAllows w.stage (.inr a)) (hx : mainExec s w (.inr a) r w')
    (hc : SourceStarts h w (.act t (.inr a) r)) : Advances w (.inr a) w' := by
  by_cases hplain : Plain (.inr a)
  · exact advances_plain hw hplain hx
  have hdoes := hx.2
  cases r with
  | error e =>
    cases a with
    | spawnReader => cases hc
    | _ => exact hdoes.elim
  | ok v =>
    cases a with
    | construct o => exact advances_construct hw ha hx
    | destroy o => exact (advances_destroy hw ha hx).2
    | unpublish =>
      obtain rfl := hdoes
      refine ⟨rfl, id, id, { hw with published := fun h => ?_ }⟩
      cases h
    | connectPort =>
      have hconnected : v = true := hc
      subst hconnected
      obtain rfl := hdoes
      exact ⟨rfl, id, id, { hw with }⟩
    | closePort =>
      obtain rfl := hdoes
      exact ⟨rfl, id, id, { hw with }⟩
    | spawnReader =>
      obtain rfl := hdoes
      have hsource : w.life .activitySource = .alive := ha
      exact ⟨rfl, id, fun _ => rfl, { hw with reader := fun _ => ⟨hsource, rfl⟩ }⟩
    | joinReader =>
      obtain ⟨hreader, rfl⟩ := hdoes
      refine ⟨rfl, id, id, { hw with reader := fun halive => ?_ }⟩
      exact absurd halive (ne_true_of_eq_false hreader)
    | exitReader => exact ha.elim
    | _ => exact absurd trivial hplain

/-- **Every call of `service_main` advances it.** -/
theorem advances_of_exec {a : mainCalls.Act} {r : Except String (mainCalls.Resp a)} {t : HostParty}
    (hw : w.Sound) (ha : MainAllows w.stage a) (hx : mainExec s w a r w')
    (hc : SourceStarts h w (.act t a r)) : Advances w a w' := by
  rcases a with (a | a) | a
  · cases a with
    | memory m => exact advances_memory hw ha hx
    | _ => exact advances_plain hw trivial hx
  · cases a with
    | publish =>
      obtain ⟨-, host, hdoes, rfl⟩ := hx
      cases r with
      | error e => exact hdoes.elim
      | ok v =>
        obtain rfl := hdoes
        have hscheduler : w.life .scheduler = .alive := ha
        exact ⟨rfl, id, id, { hw with published := fun _ => hscheduler }⟩
    | _ => exact advances_plain hw trivial hx
  · exact advances_own hw ha hx hc

/-- What `service_main` may call is there. -/
theorem needs_of_mainAllows {a : mainCalls.Act} {r : Except String (mainCalls.Resp a)}
    (hw : w.Sound) (ha : MainAllows w.stage a) (hx : mainExec s w a r w') : Needs w a := by
  rcases a with (a | a) | a
  · cases a with
    | memory m =>
      cases m with
      | exit => exact ha.elim
      | _ => exact ha
    | _ => exact ha
  · cases a with
    | publish => exact ha
    | setPublishedPaused paused => exact hw.published
    | getMessage => exact ha.elim
    | _ => trivial
  · cases a with
    | construct o =>
      cases o with
      | cacheIndex => exact ha
      | scheduler | activitySource => exact ha.2
    | destroy o => exact (advances_destroy hw ha hx).1
    | loadStopRequested | exitReader => exact ha.elim
    | readerJoinable | connectPort | registerService | storeStopRequested => exact ha
    | spawnReader | cancelSynchronousIo | portOpen | closePort | joinReader => exact ha
    | _ => trivial

/-- The answers that `service_main` gets are those of its stage. -/
theorem mainAnswers_of_exec {a : mainCalls.Act} {r : Except String (mainCalls.Resp a)}
    {t : HostParty} (hx : mainExec s w a r w') (hc : SourceStarts h w (.act t a r)) :
    MainAnswers w.stage a r := by
  rcases a with (a | a) | a
  · obtain ⟨-, host, ⟨service, hservice, -⟩, -⟩ := hx
    cases a with
    | memory m =>
      cases r with
      | error e => exact hservice.elim
      | ok v =>
        obtain ⟨-, hv, -⟩ := exec_memoryCall hservice
        cases m with
        | joinable => exact hv
        | _ => trivial
    | _ => trivial
  · obtain ⟨-, host, hdoes, -⟩ := hx
    cases a with
    | publish | storeCachingActive | setPublishedPaused =>
      cases r with
      | error e => exact hdoes.elim
      | ok v => trivial
    | _ => trivial
  · obtain ⟨-, hdoes⟩ := hx
    cases r with
    | error e =>
      cases a with
      | spawnReader => cases hc
      | _ => exact hdoes.elim
    | ok v =>
      cases a with
      | readerJoinable | portOpen => exact hdoes.1
      | connectPort | registerService => exact hc
      | _ => trivial

/-! ### The other threads -/

theorem alive_of_worker (hw : w.Sound) (halive : w.host.service.memory.alive = true) :
    w.life .scheduler = .alive ∧ w.life .cacheIndex = .alive :=
  have hscheduler : w.life .scheduler = .alive := (hw.worker halive).1
  ⟨hscheduler, hw.scheduler hscheduler⟩

theorem alive_of_reader (hw : w.Sound) (halive : w.readerAlive = true) :
    w.life .activitySource = .alive ∧ w.life .scheduler = .alive ∧ w.life .cacheIndex = .alive :=
  have hsource : w.life .activitySource = .alive := (hw.reader halive).1
  ⟨hsource, hw.source hsource, hw.scheduler (hw.source hsource)⟩

/-- A plain call leaves the others what they rely on. -/
theorem plain_step {t : HostParty} {q : Stage} {a : mainCalls.Act}
    {r : Except String (mainCalls.Resp a)} (hq : Knows t q w) (ha : Plain a)
    (hx : mainExec s w a r w') : (∀ u, u ≠ t → Leaves u w w') ∧ Knows t q w' :=
  have hsame : Same w w' := same_of_exec ha hx
  ⟨fun u _ => hsame.leaves u, hq.stable (hsame.leaves t)⟩

/-- What a call of the worker needs is there, and only its last call ends the worker. -/
theorem worker_step {q : Stage} {a : mainCalls.Act} {r : Except String (mainCalls.Resp a)}
    (hknows : Knows .worker q w) (ha : Allows .worker q a) (hx : mainExec s w a r w') :
    Needs w a ∧ (∀ u, u ≠ .worker → Leaves u w w') ∧ Knows .worker (q.pass a) w' := by
  have hplain : Plain a → Needs w a → q.pass a = q →
      Needs w a ∧ (∀ u, u ≠ .worker → Leaves u w w') ∧ Knows .worker (q.pass a) w' := by
    intro hplain hneeds hpass
    rw [hpass]
    exact ⟨hneeds, plain_step hknows hplain hx⟩
  rcases ha with rfl | ⟨hq, ha⟩
  · exact hplain trivial trivial rfl
  obtain ⟨hw, hbusy⟩ := hknows
  have halive : w.host.service.memory.alive = true := hbusy hq
  obtain ⟨hscheduler, hindex⟩ := alive_of_worker hw halive
  rcases a with (a | a) | a
  · cases a with
    | memory m =>
      cases m with
      | spawn | join => exact ha.elim
      | exit =>
        obtain ⟨-, host, ⟨service, hservice, rfl⟩, rfl⟩ := hx
        cases r with
        | error e => exact hservice.elim
        | ok v =>
          obtain ⟨-, -, rfl⟩ := exec_memoryCall hservice
          have hends : ∀ {w : MainWorld V}, w.Sound → MainWorld.Sound { w with host := { w.host with
              service := { w.host.service with memory :=
                { w.host.service.memory with alive := false } } } } := fun hw =>
            { hw with worker := fun h => by cases h }
          refine ⟨hscheduler, fun u hu => ⟨hends, ?_⟩, hends hw, fun h => ?_⟩
          · cases u with
            | worker => exact absurd rfl hu
            | serviceMain => rfl
            | reader => exact id
            | controls => trivial
          · cases h
      | _ => exact hplain trivial hscheduler rfl
    | update | query => exact hplain trivial hindex rfl
    | _ => exact hplain trivial hscheduler rfl
  · exact ha.elim
  · exact ha.elim

/-- What a call of the reader needs is there, and only its last call ends the reader. -/
theorem reader_step {q : Stage} {a : mainCalls.Act} {r : Except String (mainCalls.Resp a)}
    (hknows : Knows .reader q w) (ha : Allows .reader q a) (hx : mainExec s w a r w') :
    Needs w a ∧ (∀ u, u ≠ .reader → Leaves u w w') ∧ Knows .reader (q.pass a) w' := by
  have hplain : Plain a → Needs w a → q.pass a = q →
      Needs w a ∧ (∀ u, u ≠ .reader → Leaves u w w') ∧ Knows .reader (q.pass a) w' := by
    intro hplain hneeds hpass
    rw [hpass]
    exact ⟨hneeds, plain_step hknows hplain hx⟩
  rcases ha with rfl | ⟨hq, ha⟩
  · exact hplain trivial trivial rfl
  obtain ⟨hw, hbusy⟩ := hknows
  have halive : w.readerAlive = true := hbusy hq
  obtain ⟨hsource, hscheduler, hindex⟩ := alive_of_reader hw halive
  rcases a with (a | a) | a
  · cases a with
    | memory m =>
      cases m with
      | loadPaused | push | now => exact hplain trivial hscheduler rfl
      | _ => exact ha.elim
    | update u => exact hplain trivial hindex rfl
    | _ => exact ha.elim
  · cases a with
    | loadCachingActive | processImage => exact hplain trivial trivial rfl
    | getMessage => exact hplain trivial hsource rfl
    | _ => exact ha.elim
  · cases a with
    | loadStopRequested => exact hplain trivial hsource rfl
    | exitReader =>
      obtain ⟨-, hdoes⟩ := hx
      cases r with
      | error e => exact hdoes.elim
      | ok v =>
        obtain rfl := hdoes
        have hends : ∀ {w : MainWorld V}, w.Sound →
            MainWorld.Sound { w with readerAlive := false } := fun hw =>
          { hw with reader := fun h => by cases h }
        refine ⟨hsource, fun u hu => ⟨hends, ?_⟩, hends hw, fun h => ?_⟩
        · cases u with
          | reader => exact absurd rfl hu
          | serviceMain => rfl
          | worker => exact id
          | controls => trivial
        · cases h
    | _ => exact ha.elim

/-- The handler uses no object but through `scheduler_`. -/
theorem controls_step {q : Stage} {a : mainCalls.Act} {r : Except String (mainCalls.Resp a)}
    (hq : Knows .controls q w) (ha : Allows .controls q a) (hx : mainExec s w a r w') :
    Needs w a ∧ (∀ u, u ≠ .controls → Leaves u w w') ∧ Knows .controls q w' := by
  have hplain : Plain a ∧ Needs w a := by
    rcases a with (a | a) | a
    · exact ha.elim
    · cases a with
      | publish | getMessage => exact ha.elim
      | setPublishedPaused paused => exact ⟨trivial, hq.1.published⟩
      | _ => exact ⟨trivial, trivial⟩
    · cases a with
      | storeStatus | reportStatus => exact ⟨trivial, trivial⟩
      | _ => exact ha.elim
  exact ⟨hplain.2, plain_step hq hplain.1 hx⟩

/-- The lives of the objects as places of the threads. -/
def livesPlaces (s : Hosting V) : Places (serviceProcess s) SourceStarts Stage where
  knows t q x := Knows t q x.2
  rely t x y := Leaves t x.2 y.2
  guard _ x a := Needs x.2 a
  allows := Allows
  moves := Moves
  refl t x := Same.leaves ⟨rfl, rfl, rfl⟩ t
  trans h₁ h₂ := h₁.trans h₂
  stable hr hq := hq.stable hr
  step {t q x a r y} hq ha hs := by
    obtain ⟨hx, hc, -⟩ := hs
    cases t with
    | worker =>
      obtain ⟨hneeds, hothers, hq'⟩ := worker_step hq ha hx
      exact ⟨hneeds, hothers, _, rfl, hq'⟩
    | reader =>
      obtain ⟨hneeds, hothers, hq'⟩ := reader_step hq ha hx
      exact ⟨hneeds, hothers, _, rfl, hq'⟩
    | controls =>
      obtain ⟨hneeds, hothers, hq'⟩ := controls_step hq ha hx
      exact ⟨hneeds, hothers, q, rfl, hq'⟩
    | serviceMain =>
      obtain ⟨hw, rfl⟩ := hq
      have hadvances : Advances x.2 a y.2 := advances_of_exec hw ha hx hc
      refine ⟨needs_of_mainAllows hw ha hx, fun u hu => ⟨fun _ => hadvances.sound, ?_⟩,
        _, ⟨mainAnswers_of_exec hx hc, rfl⟩, hadvances.sound, hadvances.stage⟩
      cases u with
      | serviceMain => exact absurd rfl hu
      | worker => exact hadvances.worker
      | reader => exact hadvances.reader
      | controls => trivial
  call {_ u h w _} _ := Same.leaves ⟨rfl, rfl, rfl⟩ u
  env {t h w w'} he _ := by
    obtain ⟨host, ⟨service, ⟨clock, -, rfl⟩, rfl⟩, rfl⟩ := he
    exact Same.leaves ⟨rfl, rfl, rfl⟩ t

/-! ## The programs -/

variable {α : Type} {t : HostParty} {q : Stage} {R : Except String α → Stage → Prop}

abbrev Leads (s : Hosting V) (t : HostParty) (c : MainTask α) (q : Stage)
    (R : Except String α → Stage → Prop) : Prop := (livesPlaces s).Leads t c q R

/-! ### A pass of the worker -/

/-- The calls that a pass of the worker makes after its check of the stop request. -/
def Working (a : mainCalls.Act) : Prop := WorkerAllows a ∧ ∀ q : Stage, q.pass a = q

/-- In a pass. -/
def inPass : Stage := { busy := true }

theorem working_byEntry {a : Call} (ha : a.ByEntry) : Working (Sum.inl (Sum.inl a)) := by
  cases a with
  | memory m =>
    cases m with
    | spawn | join | exit => rcases ha with (ha | ha) | ha <;> exact ha.elim
    | _ => exact ⟨trivial, fun _ => rfl⟩
  | _ => exact ⟨trivial, fun _ => rfl⟩

/-- A working thread stays in its pass. -/
theorem leads_working {c : MainTask Unit} (hc : c.Only Working) :
    Leads s .worker c inPass fun _ _ => True :=
  have hstays {a : mainCalls.Act} (ha : Working a) : Allows .worker inPass a ∧
      ∀ r q', Moves .worker inPass a r q' → q' = inPass :=
    ⟨.inr ⟨rfl, ha.1⟩, fun _ _ hq' => hq'.trans (ha.2 _)⟩
  (Places.leads_only (P := livesPlaces s) hc hstays).mono fun _ _ _ => trivial

/-- A pass, and what the thread does with an exception. -/
theorem leads_threadPass {pass : MainTask Unit} (hpass : Leads s t pass inPass fun _ _ => True)
    (hterminate : ∀ q, Allows t q (.inr .terminate)) :
    Leads s t (threadPass pass) inPass fun _ _ => True :=
  Places.Leads.tryCatch hpass (fun _ _ _ => trivial) fun _ q _ =>
    Places.leads_last (hterminate q) fun _ _ _ => trivial

theorem leads_workerPass :
    Leads s .worker (threadPass (hosted (lift (workerIteration s.sv)))) inPass fun _ _ => True := by
  refine leads_threadPass ?_ fun _ => .inl rfl
  refine Places.leads_call (.inr ⟨rfl, trivial⟩) fun (r : Except String Bool) q' hq' => ?_
  obtain rfl : q' = inPass := hq'
  cases r with
  | error e => exact Places.leads_throw trivial
  | ok stopRequested =>
    cases stopRequested with
    | true =>
      -- the worker's last call
      refine Places.leads_call (.inr ⟨rfl, trivial⟩) fun (r : Except String Unit) q' hq' => ?_
      cases r with
      | ok v => exact Places.leads_ret trivial
      | error e => exact Places.leads_throw trivial
    | false =>
      refine leads_working ⟨⟨trivial, fun _ => rfl⟩, fun (r : Except String Bool) => ?_⟩
      cases r with
      | error e => exact trivial
      | ok paused =>
        cases paused with
        | true => exact trivial
        | false =>
          refine ⟨⟨trivial, fun _ => rfl⟩, fun (r : Except String (Option HeapEntry)) => ?_⟩
          cases r with
          | error e => exact trivial
          | ok next =>
            cases next with
            | none => exact trivial
            | some next =>
              have hentry := (runEntry_only s.sv next).left (T := hostOnly)
                (B := fun a => Working (Sum.inl a)) working_byEntry
              exact hentry.left (T := mainOnly) id

/-! ### A pass of the reader -/

/-- The calls with which the reader handles a message. -/
def Reading (a : hostCalls.Act) : Prop := ReaderAllows (Sum.inl a)

theorem pass_reading {a : hostCalls.Act} (ha : Reading a) (q : Stage) : q.pass (Sum.inl a) = q := by
  rcases a with a | a
  · cases a with
    | memory m =>
      cases m with
      | exit => exact ha.elim
      | _ => rfl
    | _ => rfl
  · rfl

theorem leads_reading {c : HostTask Unit} (hc : c.Only Reading) :
    Leads s .reader (hosted c) inPass fun _ _ => True := by
  have hleft : (hosted c).Only fun a => ∃ b, a = Sum.inl b ∧ Reading b :=
    hc.left (T := mainOnly) fun {a} ha => ⟨a, rfl, ha⟩
  refine (Places.leads_only (P := livesPlaces s) hleft fun {a} ha => ?_).mono fun _ _ _ => trivial
  obtain ⟨b, rfl, hb⟩ := ha
  exact ⟨.inr ⟨rfl, hb⟩, fun _ _ hq' => hq'.trans (pass_reading hb _)⟩

theorem reading_converted (value : Except String String) : (converted value).Only Reading := by
  cases value with
  | ok text => exact trivial
  | error e => exact trivial

theorem reading_onActivity (event : AccessEvent) :
    (onActivity s.sv s.filters event).Only Reading := by
  have hhost {a : HostCall} (ha : Reading (Sum.inr a)) : (host a).Only Reading :=
    Prog.only_perform (S := hostCalls) (a := Sum.inr a) ha
  have hmessage (event : AccessEvent) : (activityEventMessage event).Only Reading :=
    Prog.Only.bind (reading_converted _) fun _ => trivial
  refine Prog.Only.bind (hhost (a := .loadCachingActive) trivial) fun (cachingActive : Bool) => ?_
  refine Prog.only_ite ?_ trivial
  refine Prog.Only.bind ?_ fun enriched => ?_
  · refine Prog.Only.bind (hhost (a := .processImage _) trivial) fun (image : WString) => ?_
    exact Prog.Only.bind (reading_converted _) fun _ => trivial
  · refine Prog.Only.bind ?_ fun (ignored : Bool) => ?_
    · exact Prog.only_ite (Prog.Only.bind (hmessage _) fun _ => trivial) trivial
    · refine Prog.only_ite trivial ?_
      refine Prog.Only.bind (hmessage _) fun _ => ?_
      refine (recordEvent_only enriched).left (T := hostOnly) fun {a} ha => ?_
      cases a with
      | memory m =>
        cases m with
        | loadPaused | push => exact trivial
        | _ => exact ha.elim
      | _ => exact ha

theorem reading_handleMessage (message : CachemonEvent) : (handleMessage s message).Only Reading := by
  unfold handleMessage
  cases readIdentity s.fold s.sourceUnc message with
  | none => exact trivial
  | some identity =>
    have hnow : (memory .now).Only fun a => Reading (Sum.inl a) := Prog.only_perform trivial
    refine Prog.Only.bind (hnow.left (T := hostOnly) id) fun (now : ℤ) => ?_
    exact reading_onActivity _

theorem leads_exitReader : Leads s .reader (main .exitReader) inPass fun _ _ => True :=
  Places.leads_last (.inr ⟨rfl, trivial⟩) fun _ _ _ => trivial

theorem leads_readerPass :
    Leads s .reader (threadPass (readerLoop s)) inPass fun _ _ => True := by
  have hload {f : Bool → MainTask Unit} (hf : ∀ stop, Leads s .reader (f stop) inPass fun _ _ => True) :
      Leads s .reader ((main .loadStopRequested).bind f) inPass fun _ _ => True := by
    refine Places.leads_then (.inr ⟨rfl, trivial⟩) (fun _ _ _ => trivial) fun stop q' hq' => ?_
    obtain rfl : q' = inPass := hq'
    exact hf stop
  refine leads_threadPass (hload fun stopRequested => ?_) fun _ => .inl rfl
  cases stopRequested with
  | true => exact leads_exitReader
  | false =>
    refine Places.leads_call (.inr ⟨rfl, trivial⟩)
      fun (r : Except String (Option CachemonEvent)) q' hq' => ?_
    obtain rfl : q' = inPass := hq'
    cases r with
    | error e => exact Places.leads_throw trivial
    | ok message =>
      cases message with
      | some message => exact leads_reading (reading_handleMessage message)
      | none =>
        refine hload fun stopRequested => ?_
        cases stopRequested with
        | true => exact leads_exitReader
        | false => exact Places.leads_ret trivial

/-! ### A control -/

/-- The calls with which the handler switches modes. -/
def Switching : hostCalls.Act → Prop
  | .inr .publish | .inr .getMessage | .inr .signalStop => False
  | .inr _ => True
  | _ => False

theorem switching_host {a : HostCall} (ha : Switching (Sum.inr a)) : (host a).Only Switching :=
  Prog.only_perform (S := hostCalls) (a := Sum.inr a) ha

theorem switching_applyCachingMode (mode : Option AppMode) :
    (applyCachingMode mode).Only Switching :=
  Prog.Only.bind (switching_host (a := .storeCachingActive _) trivial) fun _ =>
    switching_host (a := .setPublishedPaused _) trivial

theorem switching_switchMode (config : AppConfig) (mode : AppMode) :
    (switchMode config mode).Only Switching := by
  refine Prog.Only.bind (switching_host (a := .saveConfig _) trivial) fun _ => ?_
  exact Prog.Only.bind (switching_applyCachingMode _) fun _ => trivial

theorem switching_mode (mode : AppMode) : (handleControl (.mode mode)).Only Switching := by
  have hdrives {a : hostCalls.Act} (ha : OnDrives a) : Switching a := by
    obtain ⟨b, rfl⟩ := ha
    trivial
  have hload : (host .loadConfig).Only Switching := switching_host (a := .loadConfig) trivial
  cases mode with
  | disabled => exact Prog.Only.bind hload fun config => switching_switchMode config _
  | monitor =>
    refine Prog.Only.bind hload fun config => ?_
    refine Prog.Only.bind ((moveToMonitor_only config).mono hdrives) fun (moved : Bool) => ?_
    exact Prog.only_ite (switching_switchMode config _) trivial
  | serve =>
    refine Prog.Only.bind hload fun config => ?_
    refine Prog.Only.bind ((moveToSource_only config).mono hdrives) fun (moved : Bool) => ?_
    exact Prog.only_ite (switching_switchMode config _) trivial

theorem handlerThunk_only {A : hostCalls.Act → Prop} (hswitching : ∀ {a}, Switching a → A a)
    {control : Control} (hsignal : control = .stop ∨ control = .shutdown → A (Sum.inr .signalStop)) :
    (handlerThunk control).Only A := by
  have hreply (result : ControlResult) : (host (.reply control result)).Only A :=
    Prog.only_perform (S := hostCalls) (a := Sum.inr (.reply _ _)) (hswitching trivial)
  have hstop (hs : control = .stop ∨ control = .shutdown) : (host .signalStop).Only A :=
    Prog.only_perform (S := hostCalls) (a := Sum.inr HostCall.signalStop) (hsignal hs)
  have hload : (host .loadConfig).Only A :=
    Prog.only_perform (S := hostCalls) (a := Sum.inr HostCall.loadConfig) (hswitching trivial)
  refine Prog.Only.bind ?_ fun _ => hreply _
  cases control with
  | stop => exact Prog.Only.bind (hstop (.inl rfl)) fun _ => trivial
  | shutdown => exact Prog.Only.bind (hstop (.inr rfl)) fun _ => trivial
  | paramChange => exact trivial
  | mode mode => exact (switching_mode mode).mono hswitching
  | other => exact Prog.Only.bind hload fun _ => trivial

theorem controlHandler_only (control : Control) : (controlHandler control).Only ControlAllows := by
  have hswitching {a : hostCalls.Act} (ha : Switching a) : ControlAllows (Sum.inl a) := by
    rcases a with a | a
    · exact ha.elim
    · cases a with
      | publish | getMessage => exact ha.elim
      | _ => trivial
  have hthunk : (hosted (handlerThunk control)).Only ControlAllows :=
    (handlerThunk_only (A := fun a => ControlAllows (Sum.inl a)) hswitching fun _ => trivial).left
      (T := mainOnly) id
  have hpending : (do setStatus .stopPending 0; hosted (handlerThunk control) : MainTask Unit).Only
      ControlAllows := by
    refine Prog.Only.bind ?_ fun _ => hthunk
    exact Prog.Only.bind (Prog.only_perform trivial) fun _ => Prog.only_perform trivial
  cases control with
  | stop | shutdown => exact hpending
  | _ => exact hthunk

theorem leads_control (control : Control) :
    Leads s .controls (controlHandler control) q fun _ _ => True :=
  (Places.leads_only (P := livesPlaces s) (t := .controls) (q := q) (controlHandler_only control)
    fun ha => ⟨ha, fun _ _ hq' => hq'⟩).mono fun _ _ _ => trivial

/-! ### `service_main` -/

/-- `c` returns `v` and brings `service_main` from `q` to `q'`. -/
abbrev Takes (s : Hosting V) (c : MainTask α) (q : Stage) (v : α) (q' : Stage) : Prop :=
  Leads s .serviceMain c q fun r q₁ => r = .ok v ∧ q₁ = q'

theorem Takes.bind {β : Type} {c : MainTask β} {f : β → MainTask α} {v : β} {q' : Stage}
    (hc : Takes s c q v q') (hf : Leads s .serviceMain (f v) q' R) :
    Leads s .serviceMain (c.bind f) q R := by
  refine Places.Leads.bind hc (fun e q₁ hq₁ => ?_) fun v₁ q₁ hq₁ => ?_
  · cases hq₁.1
  · obtain ⟨hv, rfl⟩ := hq₁
    cases hv
    exact hf

/-- A call of `service_main` that does not throw. -/
theorem leads_answered {a : mainCalls.Act} {k : Except String (mainCalls.Resp a) → MainTask α}
    (hreturns : ∀ e, ¬ MainAnswers q a (.error e)) (ha : MainAllows q a)
    (hk : ∀ v, MainAnswers q a (.ok v) → Leads s .serviceMain (k (.ok v)) (q.next a) R) :
    Leads s .serviceMain (.call a k) q R := by
  refine Places.leads_call (P := livesPlaces s) ha fun r q' hq' => ?_
  obtain ⟨hanswers, hnext⟩ := hq'
  subst hnext
  cases r with
  | ok v => exact hk v hanswers
  | error e => exact absurd hanswers (hreturns e)

theorem not_mainAnswers_error {a : MainCall} {e : String} :
    ¬ MainAnswers q (.inr a) (.error e) := by
  cases a <;> exact id

/-- A call on the members of `service_main`. -/
theorem leads_main {a : MainCall} {f : a.Answer → MainTask α} (ha : MainAllows q (.inr a))
    (hf : ∀ v, MainAnswers q (.inr a) (.ok v) → Leads s .serviceMain (f v) (q.next (.inr a)) R) :
    Leads s .serviceMain ((main a).bind f) q R :=
  leads_answered (fun _ => not_mainAnswers_error) ha hf

theorem leads_main_last {a : MainCall} {R : Except String a.Answer → Stage → Prop}
    (ha : MainAllows q (.inr a))
    (hR : ∀ v, MainAnswers q (.inr a) (.ok v) → R (.ok v) (q.next (.inr a))) :
    Leads s .serviceMain (main a) q R :=
  leads_answered (fun _ => not_mainAnswers_error) ha fun v hv => Places.leads_ret (hR v hv)

theorem takes_ret (v : α) : Takes s (.ret v) q v q := Places.leads_ret ⟨rfl, rfl⟩

theorem takes_setStatus (state : ServiceState) (win32ExitCode : UInt32) :
    Takes s (setStatus state win32ExitCode) q () q :=
  leads_main (a := .storeStatus state win32ExitCode) trivial fun _ _ =>
    leads_main_last (a := .reportStatus) trivial fun _ _ => ⟨rfl, rfl⟩

theorem takes_cancelReader (hsource : q.source = .alive) : Takes s cancelReader q () q := by
  refine leads_main (a := .readerJoinable) hsource fun (joinable : Bool) _ => ?_
  cases joinable with
  | true => exact leads_main_last (a := .cancelSynchronousIo) hsource fun _ _ => ⟨rfl, rfl⟩
  | false => exact takes_ret ()

theorem takes_closePort (hsource : q.source = .alive) :
    Takes s closePort q () { q with portOpen := false } := by
  refine leads_main (a := .portOpen) hsource fun (isOpen : Bool) hopen => ?_
  cases isOpen with
  | true => exact leads_main_last (a := .closePort) hsource fun _ _ => ⟨rfl, rfl⟩
  | false =>
    have hsame : q.portOpen = false := Eq.symm hopen
    have hq : { q with portOpen := false } = q := by rw [← hsame]
    rw [hq]
    exact takes_ret ()

theorem takes_joinReader (hsource : q.source = .alive) :
    Takes s joinReader q () { q with readerJoinable := false } := by
  refine leads_main (a := .readerJoinable) hsource fun (joinable : Bool) hjoinable => ?_
  cases joinable with
  | true => exact leads_main_last (a := .joinReader) hsource fun _ _ => ⟨rfl, rfl⟩
  | false =>
    have hsame : q.readerJoinable = false := Eq.symm hjoinable
    have hq : { q with readerJoinable := false } = q := by rw [← hsame]
    rw [hq]
    exact takes_ret ()

/-- `WinFilterActivitySource::stop` closes the port and joins the reader. -/
theorem takes_sourceStop (hsource : q.source = .alive) :
    Takes s sourceStop q () { q with portOpen := false, readerJoinable := false } := by
  refine leads_main (a := .storeStopRequested true) hsource fun _ _ => ?_
  refine (takes_cancelReader hsource).bind ?_
  exact (takes_closePort hsource).bind (takes_joinReader hsource)

theorem takes_sourceStart (hsource : q.source = .alive) (hfirst : q.readerJoinable = false) :
    Takes s sourceStart q () { q with portOpen := true, readerJoinable := true } := by
  refine leads_main (a := .readerJoinable) hsource fun (joinable : Bool) hjoinable => ?_
  obtain rfl : joinable = false := Eq.trans hjoinable hfirst
  refine leads_main (a := .connectPort) hsource fun (connected : Bool) hconnected => ?_
  obtain rfl : connected = true := hconnected
  refine leads_main (a := .registerService) hsource fun (registered : Bool) hregistered => ?_
  obtain rfl : registered = true := hregistered
  refine leads_main (a := .storeStopRequested false) hsource fun _ _ => ?_
  exact leads_main_last (a := .spawnReader) hsource fun _ _ => ⟨rfl, rfl⟩

/-- `PendingCopyScheduler::stop` joins the worker. -/
theorem takes_stop (hscheduler : q.scheduler = .alive) :
    Takes s (hosted (lift stop)) q () { q with workerJoinable := false } := by
  refine leads_answered (fun _ => id) hscheduler fun _ _ => ?_
  refine leads_answered (fun _ => id) hscheduler fun (joinable : Bool) hjoinable => ?_
  cases joinable with
  | true => exact leads_answered (fun _ => id) hscheduler fun _ _ => takes_ret ()
  | false =>
    have hsame : q.workerJoinable = false := Eq.symm hjoinable
    have hq : { q with workerJoinable := false } = q := by rw [← hsame]
    rw [hq]
    exact takes_ret ()

theorem takes_publish (hscheduler : q.scheduler = .alive) :
    Takes s (hosted (host .publish)) q () { q with published := true } :=
  leads_answered (fun _ => id) hscheduler fun _ _ => takes_ret ()

theorem takes_applyCachingMode (mode : Option AppMode) :
    Takes s (hosted (applyCachingMode mode)) q () q :=
  leads_answered (fun _ => id) trivial fun _ _ =>
    leads_answered (fun _ => id) trivial fun _ _ => takes_ret ()

theorem unborn_ne : Life.unborn ≠ .alive := by decide

theorem destroyed_ne : Life.destroyed ≠ .alive := by decide

/-- The activity source is gone, and so is the pointer to the scheduler. -/
structure Disconnected (q : Stage) : Prop where
  source : q.source ≠ .alive
  published : q.published = false
  readerJoinable : q.readerJoinable = false
  portOpen : q.portOpen = false

/-- With a scheduler. -/
structure Scheduling (q : Stage) : Prop where
  cacheIndex : q.cacheIndex = .alive
  scheduler : q.scheduler = .alive

/-- `run_worker` has taken down what it made. -/
structure TornDown (q : Stage) : Prop extends Disconnected q where
  cacheIndex : q.cacheIndex ≠ .alive
  scheduler : q.scheduler ≠ .alive
  workerJoinable : q.workerJoinable = false

/-- The scheduler is published and runs. -/
def serving (workerJoinable : Bool) : Stage where
  cacheIndex := .alive
  scheduler := .alive
  published := true
  workerJoinable := workerJoinable

/-- **From the wait on**: nothing throws, and the source is taken down before the pointer. -/
theorem leads_serve (config : AppConfig) (workerJoinable : Bool) :
    Leads s .serviceMain (serve config) (serving workerJoinable) fun _ q' =>
      Disconnected q' ∧ Scheduling q' := by
  unfold serve
  split
  · refine leads_main (a := .waitForStopEvent) trivial fun _ _ => ?_
    refine leads_main (a := .unpublish) trivial fun _ _ => ?_
    refine (takes_stop rfl).mono fun r q' hq' => ?_
    obtain ⟨-, rfl⟩ := hq'
    exact ⟨⟨unborn_ne, rfl, rfl, rfl⟩, rfl, rfl⟩
  · refine leads_main (a := .construct .activitySource) ⟨rfl, rfl⟩ fun _ _ => ?_
    have hbody : Takes s (do
        sourceStart
        main .waitForStopEvent
        sourceStop
        main .unpublish
        hosted (lift stop)) ((serving workerJoinable).next (.inr (.construct .activitySource))) ()
        { cacheIndex := .alive, scheduler := .alive, source := .alive } := by
      refine (takes_sourceStart rfl rfl).bind ?_
      refine leads_main (a := .waitForStopEvent) trivial fun _ _ => ?_
      refine (takes_sourceStop rfl).bind ?_
      refine leads_main (a := .unpublish) trivial fun _ _ => ?_
      exact takes_stop rfl
    refine Places.Leads.ensuring hbody (fun v q' hq' => ?_) fun e q' hq' => ?_
    · obtain ⟨-, rfl⟩ := hq'
      have hcleanup : Takes s (do sourceStop; main (.destroy .activitySource))
          { cacheIndex := .alive, scheduler := .alive, source := .alive } ()
          { cacheIndex := .alive, scheduler := .alive, source := .destroyed } :=
        (takes_sourceStop rfl).bind (leads_main_last rfl fun _ _ => ⟨rfl, rfl⟩)
      refine hcleanup.bind (Places.leads_ret ?_)
      exact ⟨⟨destroyed_ne, rfl, rfl, rfl⟩, rfl, rfl⟩
    · cases hq'.1

/-- The calls of `PendingCopyScheduler::start`. -/
def Starting (a : mainCalls.Act) : Prop := ∃ b : Call, a = Sum.inl (Sum.inl b) ∧ b.ByStart

/-- With a scheduler that is not published, whether or not it has been started. -/
def scheduling (workerJoinable : Bool) : Stage where
  cacheIndex := .alive
  scheduler := .alive
  workerJoinable := workerJoinable

theorem leads_start : Leads s .serviceMain (hosted (lift start)) (scheduling false) fun _ q' =>
    ∃ workerJoinable, q' = scheduling workerJoinable := by
  have hleft : (hosted (lift start)).Only Starting :=
    (start_byStart.left (T := hostOnly) (B := fun a => Starting (Sum.inl a))
      fun ha => ⟨_, rfl, ha⟩).left (T := mainOnly) id
  refine Places.leads_within (P := livesPlaces s) (fun {a q} ha hq => ?_) hleft ⟨false, rfl⟩
  obtain ⟨b, rfl, hb⟩ := ha
  obtain ⟨workerJoinable, rfl⟩ := hq
  cases b with
  | memory m =>
    cases m with
    | spawn => exact ⟨rfl, fun _ _ hq' => ⟨true, hq'.2⟩⟩
    | join | exit => exact hb.elim
    | _ => exact ⟨rfl, fun _ _ hq' => ⟨workerJoinable, hq'.2⟩⟩
  | query | update => exact ⟨rfl, fun _ _ hq' => ⟨workerJoinable, hq'.2⟩⟩
  | _ => exact hb.elim

/-- **With a scheduler**: whatever throws, it is stopped and then destroyed. -/
theorem leads_runScheduler (config : AppConfig) :
    Leads s .serviceMain (runScheduler config) { cacheIndex := .alive } fun _ q' =>
      Disconnected q' ∧ q'.scheduler ≠ .alive ∧ q'.workerJoinable = false := by
  refine leads_main (a := .construct .scheduler) ⟨rfl, rfl⟩ fun _ _ => ?_
  have hidle (workerJoinable : Bool) : Disconnected (scheduling workerJoinable) :=
    ⟨unborn_ne, rfl, rfl, rfl⟩
  have hbody : Leads s .serviceMain (do
      hosted (lift start)
      hosted (host .publish)
      hosted (applyCachingMode config.mode)
      serve config) (scheduling false) fun _ q' => Disconnected q' ∧ Scheduling q' := by
    refine Places.Leads.bind leads_start (fun e q' hq' => ?_) fun _ q' hq' => ?_
    · obtain ⟨workerJoinable, rfl⟩ := hq'
      exact ⟨hidle workerJoinable, rfl, rfl⟩
    · obtain ⟨workerJoinable, rfl⟩ := hq'
      refine (takes_publish rfl).bind ?_
      exact (takes_applyCachingMode config.mode).bind (leads_serve config workerJoinable)
  have hcleanup {q' : Stage} (hq' : Disconnected q' ∧ Scheduling q') :
      Takes s (do hosted (lift stop); main (.destroy .scheduler)) q' ()
        { q' with scheduler := .destroyed, workerJoinable := false } := by
    refine (takes_stop hq'.2.scheduler).bind ?_
    exact leads_main_last ⟨hq'.1.source, hq'.1.published, rfl⟩ fun _ _ => ⟨rfl, rfl⟩
  have hends {q' : Stage} (hq' : Disconnected q' ∧ Scheduling q') :
      Disconnected { q' with scheduler := .destroyed, workerJoinable := false } ∧
        Life.destroyed ≠ .alive ∧ false = false :=
    ⟨⟨hq'.1.source, hq'.1.published, hq'.1.readerJoinable, hq'.1.portOpen⟩, destroyed_ne, rfl⟩
  refine Places.Leads.ensuring hbody (fun v q' hq' => ?_) fun e q' hq' => ?_
  · exact (hcleanup hq').bind (Places.leads_ret (hends hq'))
  · exact (hcleanup hq').bind (Places.leads_throw (hends hq'))

theorem leads_staying {c : HostTask α}
    (hc : c.Only fun a => MainAllows q (Sum.inl a) ∧ q.next (Sum.inl a) = q) :
    Leads s .serviceMain (hosted c) q fun _ q' => q' = q := by
  have hleft : (hosted c).Only fun a => MainAllows q a ∧ q.next a = q := hc.left (T := mainOnly) id
  exact Places.leads_only (P := livesPlaces s) hleft fun ha =>
    ⟨ha.1, fun _ _ hq' => hq'.2.trans ha.2⟩

theorem tornDown_fresh : TornDown {} := ⟨⟨unborn_ne, rfl, rfl, rfl⟩, unborn_ne, unborn_ne, rfl⟩

/-- **`run_worker` takes down what it made**, whatever throws. -/
theorem leads_runWorkerBody (filters : Filters) :
    Leads s .serviceMain (runWorkerBody filters) {} fun _ q' => TornDown q' := by
  have hload : Leads s .serviceMain (hosted (host .loadConfig)) {} fun _ q' => q' = {} :=
    leads_staying (Prog.only_perform (S := hostCalls) (a := Sum.inr HostCall.loadConfig)
      ⟨trivial, rfl⟩)
  refine Places.Leads.bind hload (fun e q' hq' => hq' ▸ tornDown_fresh) fun config q' hq' => ?_
  obtain rfl := hq'
  refine leads_main (a := .construct .cacheIndex) rfl fun _ _ => ?_
  have hindexed : Disconnected { cacheIndex := .alive } ∧ Life.unborn ≠ .alive ∧ false = false :=
    ⟨⟨unborn_ne, rfl, rfl, rfl⟩, unborn_ne, rfl⟩
  have hopen : Leads s .serviceMain (hosted (host .openIndex)) { cacheIndex := .alive }
      fun _ q' => q' = { cacheIndex := .alive } :=
    leads_staying (Prog.only_perform (S := hostCalls) (a := Sum.inr HostCall.openIndex)
      ⟨trivial, rfl⟩)
  have hclean : Leads s .serviceMain
      (hosted (lift (cleanupInvalidCacheRecords filters.pathIgnored filters.isDirectory)))
      { cacheIndex := .alive } fun _ q' => q' = { cacheIndex := .alive } := by
    refine leads_staying ((cleanup_only _ _).left (T := hostOnly) fun {a} ha => ?_)
    cases a with
    | query | update => exact ⟨rfl, rfl⟩
    | _ => exact ha.elim
  have hbody : Leads s .serviceMain (do
      hosted (host .openIndex)
      hosted (lift (cleanupInvalidCacheRecords filters.pathIgnored filters.isDirectory))
      runScheduler config) { cacheIndex := .alive } fun _ q' =>
      Disconnected q' ∧ q'.scheduler ≠ .alive ∧ q'.workerJoinable = false := by
    refine Places.Leads.bind hopen (fun e q' hq' => hq' ▸ hindexed) fun _ q' hq' => ?_
    obtain rfl := hq'
    refine Places.Leads.bind hclean (fun e q' hq' => hq' ▸ hindexed) fun _ q' hq' => ?_
    obtain rfl := hq'
    exact leads_runScheduler config
  have hcleanup {q' : Stage} (hscheduler : q'.scheduler ≠ .alive) :
      Takes s (main (.destroy .cacheIndex)) q' () { q' with cacheIndex := .destroyed } :=
    leads_main_last hscheduler fun _ _ => ⟨rfl, rfl⟩
  have hends {q' : Stage}
      (hq' : Disconnected q' ∧ q'.scheduler ≠ .alive ∧ q'.workerJoinable = false) :
      TornDown { q' with cacheIndex := .destroyed } :=
    ⟨⟨hq'.1.source, hq'.1.published, hq'.1.readerJoinable, hq'.1.portOpen⟩,
      destroyed_ne, hq'.2.1, hq'.2.2⟩
  refine Places.Leads.ensuring hbody (fun v q' hq' => ?_) fun e q' hq' => ?_
  · exact (hcleanup hq'.2.1).bind (Places.leads_ret (hends hq'))
  · exact (hcleanup hq'.2.1).bind (Places.leads_throw (hends hq'))

theorem leads_serviceMain (filters : Filters) :
    Leads s .serviceMain (serviceMain filters) {} fun _ q' => TornDown q' := by
  refine (takes_setStatus .startPending 0).bind ?_
  refine leads_main (a := .createStopEvent) trivial fun (error : Option UInt32) _ => ?_
  cases error with
  | some error =>
    refine (takes_setStatus .stopped error).mono fun r q' hq' => ?_
    obtain ⟨-, rfl⟩ := hq'
    exact tornDown_fresh
  | none =>
    have hstatus {q : Stage} (hq : TornDown q) (code : UInt32) :
        Leads s .serviceMain (setStatus .stopped code) q fun r q' => r = .ok () ∧ TornDown q' :=
      (takes_setStatus .stopped code).mono fun r q' hq' => ⟨hq'.1, hq'.2 ▸ hq⟩
    have hbody : Leads s .serviceMain (do
        setStatus .running 0
        runWorkerBody filters
        setStatus .stopped 0) {} fun _ q' => TornDown q' := by
      refine (takes_setStatus .running 0).bind ?_
      refine Places.Leads.bind (leads_runWorkerBody filters) (fun _ _ hq' => hq') fun _ q' hq' => ?_
      exact (hstatus hq' 0).mono fun _ _ h => h.2
    have hcaught : Leads s .serviceMain (Prog.tryCatch (do
        setStatus .running 0
        runWorkerBody filters
        setStatus .stopped 0) fun _ => setStatus .stopped serviceSpecificError) {}
        fun _ q' => TornDown q' :=
      Places.Leads.tryCatch hbody (fun _ _ hq' => hq') fun e q' hq' =>
        (hstatus hq' serviceSpecificError).mono fun _ _ h => h.2
    refine Places.Leads.bind hcaught (fun _ _ hq' => hq') fun _ q' hq' => ?_
    exact leads_main_last (a := .closeStopEvent) trivial fun _ _ => hq'

/-! ## Runs -/

/-- Where the threads rest: `service_main` before and after its work. -/
def Rests (t : HostParty) (q : Stage) : Prop :=
  match t with
  | .serviceMain => TornDown q
  | _ => True

theorem bodies_lead : (livesPlaces s).Bodies Rests := by
  intro t h c o q hm _ _ hq
  have hcall {q' : Stage} (hq' : Knows t q' c.world) :
      (livesPlaces s).knows t q' ((c.world, .call t o) :: h, c.world) := hq'
  cases t with
  | serviceMain => cases o <;> cases hm
  | controls =>
    cases o with
    | control control => exact ⟨q, hcall hq, leads_control control⟩
    | workerPass | readerPass => cases hm
  | worker =>
    cases o with
    | workerPass => exact ⟨inPass, hcall ⟨hq.1, fun _ => hm⟩, leads_workerPass⟩
    | control | readerPass => cases hm
  | reader =>
    cases o with
    | readerPass => exact ⟨inPass, hcall ⟨hq.1, fun _ => hm⟩, leads_readerPass⟩
    | control | workerPass => cases hm

theorem sound_launched {x : HostWorld V} (hx : Fresh x) : MainWorld.Sound { host := x } ∧
    MainWorld.stage { host := x } = {} := by
  have hstage : MainWorld.stage { host := x } = {} := by
    simp only [MainWorld.stage, hx.published, hx.memory]
  refine ⟨?_, hstage⟩
  unfold MainWorld.Sound
  rw [hstage, hx.memory]
  constructor <;> intro h <;> cases h

theorem begins_launched {x : HostWorld V} (hx : Fresh x) (filters : Filters) :
    (livesPlaces s).Begins Rests (launched filters x) := by
  obtain ⟨hsound, hstage⟩ := sound_launched hx
  intro t
  refine ⟨{}, ⟨hsound, ?_⟩, ?_⟩
  · cases t with
    | serviceMain => exact hstage
    | controls => trivial
    | worker | reader => exact fun hb => by cases hb
  · cases t with
    | serviceMain => exact leads_serviceMain filters
    | _ => exact Places.leads_ret trivial

/-- **No thread uses an object outside its life.** In every run of the service in which the
activity source starts, whatever the files and the database throw: what a call of a thread
uses is alive, no object is destroyed while a thread that uses it lives, and when
`service_main` has ended the other threads have, the objects are gone, nothing is
published and the port is closed. -/
theorem objects_alive {filters : Filters} {x : HostWorld V} (hx : Fresh x)
    (hrun : Run (serviceProcess s) (launched filters x) h c) (hstarts : Meets SourceStarts h) :
    Meets UsesAlive h ∧ ((c.prog .serviceMain).Done → Ended c.world) := by
  refine ⟨Places.guard_of_run bodies_lead (begins_launched hx filters) hrun hstarts, fun hd => ?_⟩
  obtain ⟨q, hrest, hsound, hstage⟩ :=
    Places.rests_of_run bodies_lead (begins_launched hx filters) hrun hstarts hd
  have hstage : c.world.stage = q := hstage
  obtain rfl := hstage
  have htorn : TornDown c.world.stage := hrest
  refine ⟨quiet_of_scheduler hsound htorn.scheduler, fun o => ?_, htorn.published, htorn.portOpen⟩
  cases o with
  | cacheIndex => exact htorn.cacheIndex
  | scheduler => exact htorn.scheduler
  | activitySource => exact htorn.source

/-- The process starts on a disk with a job and this driver. -/
def sourced : HostWorld Disk where
  service := { jobDue [97] with memory := {} }
  config := { sourceUnc := wide "\\\\nas\\a" }

theorem exists_serviceRun (driver : Bool) (ms : List (Move HostParty HostOperation ℤ))
    (p : MainHistory Disk × MainState Disk → Prop) [DecidablePred p]
    (hp : ((mainPlayer driver diskHosting rfl).play ms ([], launched noFilters sourced)).any
      (fun x => decide (p x)) = true) :
    ∃ h c, Run (serviceProcess diskHosting) (launched noFilters sourced) h c ∧ p (h, c) :=
  (mainPlayer driver diskHosting rfl).exists_run ms p hp

/-- The service starts, the worker copies, the reader polls, and a stop ends it all. -/
def wholeLife : List (Move HostParty HostOperation ℤ) :=
  hostSteps .serviceMain 27 ++ .call .worker .workerPass :: hostSteps .worker 10 ++
    .call .reader .readerPass :: hostSteps .reader 3 ++
    .call .controls (.control .stop) :: hostSteps .controls 4 ++ hostSteps .serviceMain 7 ++
    .call .reader .readerPass :: hostSteps .reader 2 ++ hostSteps .serviceMain 4 ++
    .call .worker .workerPass :: hostSteps .worker 2 ++ hostSteps .serviceMain 13

/-- A service that is started and stopped. -/
theorem objects_alive_stopped : ∃ h c,
    Run (serviceProcess diskHosting) (launched noFilters sourced) h c ∧
    (∃ x ∈ h, x.1.host.service.memory.alive = true ∧ x.1.readerAlive = true) ∧ Meets UsesAlive h ∧ Ended c.world := by
  obtain ⟨h, c, hrun, hread, hstarts, hdone⟩ := exists_serviceRun true wholeLife
    (fun x => (∃ y ∈ x.1, y.1.host.service.memory.alive = true ∧ y.1.readerAlive = true) ∧ Meets SourceStarts x.1 ∧
      (x.2.prog .serviceMain).Done)
    (by decide +kernel)
  obtain ⟨huses, hended⟩ := objects_alive (s := diskHosting) ⟨rfl, rfl, rfl⟩ hrun hstarts
  exact ⟨h, c, hrun, hread, huses, hended hdone⟩

/-- A thread uses `scheduler_` after the scheduler's life. -/
def dangles : MainWorld V × MainEvent → Bool
  | (w, .act _ (.inl (.inr (.setPublishedPaused _))) _) =>
    w.host.published && decide (w.life .scheduler = .destroyed)
  | _ => false

/-- Without the driver, `run_worker` leaves `scheduler_` behind for a control on its way. -/
example : ∃ h c, Run (serviceProcess diskHosting) (launched noFilters sourced) h c ∧
    ∃ x ∈ h, dangles x = true :=
  exists_serviceRun false
    (hostSteps .serviceMain 22 ++ .call .controls (.control (.mode .disabled)) ::
      hostSteps .controls 3 ++ hostSteps .serviceMain 9 ++ .call .worker .workerPass ::
      hostSteps .worker 2 ++ hostSteps .serviceMain 6 ++ hostSteps .controls 2)
    (fun x => ∃ y ∈ x.1, dangles y = true) (by decide +kernel)

end SsdCache.ServiceMain
