import SsdCache.Spec.Hosting

/-!
# The service from start to stop

`WinServiceHost::service_main` and all of `run_worker`, with the objects it has on its stack,
`WinFilterActivitySource::start`, `stop` and `reader_loop`, and `set_status`, over the calls of
the host. The service control manager sends a control only while the service has reported
that it runs, one at a time. An exception that leaves the worker or the reader thread ends
the process. The log lines and the directories made for the files are left out.
-/

namespace SsdCache.ServiceMain

open Atomic

/-- `dwCurrentState` -/
inductive ServiceState
  | stopped
  | startPending
  | stopPending
  | running
  deriving DecidableEq, Repr

/-- The members of `SERVICE_STATUS` that `set_status` writes. -/
structure ServiceStatus where
  currentState : ServiceState := .stopped
  win32ExitCode : UInt32 := 0
  checkPoint : UInt32 := 0
  waitHint : UInt32 := 0
  deriving DecidableEq, Repr

/-- The state is one in which the service is busy. -/
def ServiceState.pending (state : ServiceState) : Bool :=
  state = .startPending || state = .stopPending

/-- `ERROR_SERVICE_SPECIFIC_ERROR` -/
def serviceSpecificError : UInt32 := 1066

/-- What `set_status` makes of `status_`. -/
def ServiceStatus.set (status : ServiceStatus) (state : ServiceState) (win32ExitCode : UInt32) :
    ServiceStatus where
  currentState := state
  win32ExitCode := win32ExitCode
  checkPoint := if state.pending then status.checkPoint + 1 else 0
  waitHint := if state.pending then 3000 else 0

/-- The objects of `run_worker` that other threads use. -/
inductive Object
  | cacheIndex
  | scheduler
  | activitySource
  deriving DecidableEq, Repr

inductive Life
  | unborn
  | alive
  | destroyed
  deriving DecidableEq, Repr

/-! ## Calls -/

inductive MainCall
  /-- `set_status` up to `SetServiceStatus`. -/
  | storeStatus (state : ServiceState) (win32ExitCode : UInt32)
  | reportStatus
  /-- `CreateEventW`; the error of a failure. -/
  | createStopEvent
  | waitForStopEvent
  | closeStopEvent
  | construct (o : Object)
  | destroy (o : Object)
  /-- `scheduler_ = nullptr`, under `scheduler_mutex_` -/
  | unpublish
  /-- `reader_.joinable()` -/
  | readerJoinable
  /-- `FilterConnectCommunicationPort`; whether it succeeds. -/
  | connectPort
  /-- `FilterSendMessage` of the register command. -/
  | registerService
  | storeStopRequested (stop : Bool)
  | loadStopRequested
  /-- The reader's `std::thread`. -/
  | spawnReader
  | cancelSynchronousIo
  /-- `port_ != INVALID_HANDLE_VALUE` -/
  | portOpen
  | closePort
  | joinReader
  /-- The reader's function returns. -/
  | exitReader
  /-- `std::terminate` -/
  | terminate

def MainCall.Answer : MainCall → Type
  | createStopEvent => Option UInt32
  | readerJoinable | connectPort | registerService | loadStopRequested | portOpen => Bool
  | _ => Unit

def mainOnly : Sig := ⟨MainCall, MainCall.Answer⟩

/-- The calls of the whole service. -/
def mainCalls : Sig := hostCalls.sum mainOnly

abbrev MainTask (α : Type) : Type := Prog mainCalls String α

def main (a : MainCall) : MainTask a.Answer := Prog.right (S := hostCalls) (T := mainOnly) a

/-- A program of the host. -/
def hosted {α : Type} (c : HostTask α) : MainTask α := c.left

/-! ## The service control manager -/

def setStatus (state : ServiceState) (win32ExitCode : UInt32) : MainTask Unit := do
  main (.storeStatus state win32ExitCode)
  main .reportStatus

/-- The handler of a control; a stop is reported as pending before it is signalled. -/
def controlHandler (control : Control) : MainTask Unit :=
  match control with
  | .stop | .shutdown => do
    setStatus .stopPending 0
    hosted (handlerThunk control)
  | control => hosted (handlerThunk control)

/-! ## The activity source -/

def sourceStart : MainTask Unit := do
  let joinable : Bool ← main .readerJoinable
  if joinable then pure ()
  else do
    let connected : Bool ← main .connectPort
    if !connected then .throw "failed to connect to CacheMon minifilter"
    else do
      let registered : Bool ← main .registerService
      if !registered then do
        main .closePort
        .throw "failed to register service with minifilter"
      else do
        main (.storeStopRequested false)
        main .spawnReader

def joinReader : MainTask Unit := do
  let joinable : Bool ← main .readerJoinable
  if joinable then main .joinReader else pure ()

def closePort : MainTask Unit := do
  let isOpen : Bool ← main .portOpen
  if isOpen then main .closePort else pure ()

def cancelReader : MainTask Unit := do
  let joinable : Bool ← main .readerJoinable
  if joinable then main .cancelSynchronousIo else pure ()

def sourceStop : MainTask Unit := do
  main (.storeStopRequested true)
  cancelReader
  closePort
  joinReader

variable {V : Type}

/-- What `reader_loop` does with a message. -/
def handleMessage (s : Hosting V) (message : CachemonEvent) : HostTask Unit :=
  match readIdentity s.fold s.sourceUnc message with
  | none => pure ()
  | some identity => do
    let now : ℤ ← lift (memory .now)
    onActivity s.sv s.filters (accessEvent message identity now)

/-- One pass of `reader_loop`; the pause after a failure is left out. -/
def readerLoop (s : Hosting V) : MainTask Unit := do
  let stopRequested : Bool ← main .loadStopRequested
  if stopRequested then main .exitReader
  else do
    let message : Option CachemonEvent ← hosted (host .getMessage)
    match message with
    | some message => hosted (handleMessage s message)
    | none => do
      let stopRequested : Bool ← main .loadStopRequested
      if stopRequested then main .exitReader else pure ()

/-! ## The worker of the service -/

/-- `run_worker` from the wait on, with the activity source. -/
def serve (config : AppConfig) : MainTask Unit :=
  if config.sourceUnc = [] then do
    main .waitForStopEvent
    main .unpublish
    hosted (lift stop)
  else do
    main (.construct .activitySource)
    Prog.ensuring
      (do
        sourceStart
        main .waitForStopEvent
        sourceStop
        main .unpublish
        hosted (lift stop))
      (do
        sourceStop
        main (.destroy .activitySource))

/-- `run_worker` with a scheduler. -/
def runScheduler (config : AppConfig) : MainTask Unit := do
  main (.construct .scheduler)
  Prog.ensuring
    (do
      hosted (lift start)
      hosted (host .publish)
      hosted (applyCachingMode config.mode)
      serve config)
    (do
      hosted (lift stop)
      main (.destroy .scheduler))

/-- `run_worker` -/
def runWorkerBody (filters : Filters) : MainTask Unit := do
  let config : AppConfig ← hosted (host .loadConfig)
  main (.construct .cacheIndex)
  Prog.ensuring
    (do
      hosted (host .openIndex)
      hosted (lift (cleanupInvalidCacheRecords filters.pathIgnored filters.isDirectory))
      runScheduler config)
    (main (.destroy .cacheIndex))

/-- `service_main`, once the control handler is registered. -/
def serviceMain (filters : Filters) : MainTask Unit := do
  setStatus .startPending 0
  let error : Option UInt32 ← main .createStopEvent
  match error with
  | some error => setStatus .stopped error
  | none => do
    Prog.tryCatch
      (do
        setStatus .running 0
        runWorkerBody filters
        setStatus .stopped 0)
      (fun _ => setStatus .stopped serviceSpecificError)
    main .closeStopEvent

/-! ## The process -/

/-- The members of the host and of the activity source, the objects' lives, what was reported
to the service control manager, newest first, and the process. -/
structure MainWorld (V : Type) where
  host : HostWorld V
  life : Object → Life := fun _ => .unborn
  eventOpen : Bool := false
  stopRequested : Bool := false
  isPortOpen : Bool := false
  readerJoinable : Bool := false
  readerAlive : Bool := false
  status : ServiceStatus := {}
  reported : List ServiceStatus := []
  terminated : Bool := false

/-- What a call does. The port and the thread may fail. -/
def MainCall.Does (w : MainWorld V) :
    (a : MainCall) → Except String a.Answer → MainWorld V → Prop
  | storeStatus state win32ExitCode, .ok (), w' =>
    w' = { w with status := w.status.set state win32ExitCode }
  | reportStatus, .ok (), w' => w' = { w with reported := w.status :: w.reported }
  | createStopEvent, .ok (error : Option UInt32), w' =>
    w' = if error.isNone then { w with eventOpen := true } else w
  | waitForStopEvent, .ok (), w' => w.host.stopSignalled = true ∧ w' = w
  | closeStopEvent, .ok (), w' => w' = { w with eventOpen := false }
  | construct o, .ok (), w' => w' = { w with life := Function.update w.life o .alive }
  | destroy o, .ok (), w' => w' = { w with life := Function.update w.life o .destroyed }
  | unpublish, .ok (), w' => w' = { w with host := { w.host with published := false } }
  | readerJoinable, .ok joinable, w' => joinable = w.readerJoinable ∧ w' = w
  | connectPort, .ok (connected : Bool), w' =>
    w' = if connected then { w with isPortOpen := true } else w
  | registerService, .ok _, w' => w' = w
  | storeStopRequested stop, .ok (), w' => w' = { w with stopRequested := stop }
  | loadStopRequested, .ok stop, w' => stop = w.stopRequested ∧ w' = w
  | spawnReader, .ok (), w' => w' = { w with readerJoinable := true, readerAlive := true }
  | spawnReader, .error _, w' => w' = w
  | cancelSynchronousIo, .ok (), w' => w' = w
  | portOpen, .ok isOpen, w' => isOpen = w.isPortOpen ∧ w' = w
  | closePort, .ok (), w' => w' = { w with isPortOpen := false }
  -- a join waits for the thread to end
  | joinReader, .ok (), w' => w.readerAlive = false ∧ w' = { w with readerJoinable := false }
  | exitReader, .ok (), w' => w' = { w with readerAlive := false }
  | terminate, .ok (), w' => w' = { w with terminated := true }
  | _, .error _, _ => False

/-- What a call does in a process that has not terminated. -/
def mainExec (s : Hosting V) (w : MainWorld V) :
    (a : mainCalls.Act) → Except String (mainCalls.Resp a) → MainWorld V → Prop
  | .inl a, r, w' => w.terminated = false ∧
    ∃ host, hostExec s.sv s.faults w.host a r host ∧ w' = { w with host }
  | .inr a, r, w' => w.terminated = false ∧ MainCall.Does w a r w'

/-- A pass of a thread whose exceptions nobody handles. -/
def threadPass (pass : MainTask Unit) : MainTask Unit := pass.tryCatch fun _ => main .terminate

/-- The code of an operation. -/
def body (s : Hosting V) : HostOperation → MainTask Unit
  | .control c => controlHandler c
  | .workerPass => threadPass (hosted (lift (workerIteration s.sv)))
  | .readerPass => threadPass (readerLoop s)

abbrev MainState (V : Type) : Type := Atomic.Config mainCalls String (MainWorld V) HostParty

abbrev MainEvent : Type := Label mainCalls String HostParty HostOperation

abbrev MainHistory (V : Type) : Type := Hist mainCalls String (MainWorld V) HostParty HostOperation

/-- Controls come while the service is reported as running, passes while the threads live. -/
def mainMenu : HostParty → MainState V → HostOperation → Bool
  | .controls, c, .control _ => (c.world.reported.head?.map (·.currentState)) = some .running
  | .worker, c, .workerPass => c.world.host.service.memory.alive
  | .reader, c, .readerPass => c.world.readerAlive
  | _, _, _ => false

/-- Time passes. -/
def mainTick (w w' : MainWorld V) : Prop := ∃ host, hostTick w.host host ∧ w' = { w with host }

def serviceProcess (s : Hosting V) :
    Machine mainCalls String (MainWorld V) HostParty HostOperation where
  body := body s
  menu t c o := mainMenu t c o = true
  exec := mainExec s
  env := mainTick

/-- A new process, over any database, cache volume, configuration and drives. -/
structure Fresh (w : HostWorld V) : Prop where
  memory : w.service.memory = {}
  published : w.published = false
  stopSignalled : w.stopSignalled = false

/-- The service control manager starts the service. -/
def launched (filters : Filters) (w : HostWorld V) : MainState V where
  world := { host := w }
  prog
    | .serviceMain => serviceMain filters
    | _ => .ret ()

/-! ## Executing the process -/

/-- What a call does when Windows gives an event and a thread, and the driver is there or not. -/
def MainCall.does (driver : Bool) (w : MainWorld V) :
    (a : MainCall) → Option (Except String a.Answer × MainWorld V)
  | storeStatus state win32ExitCode =>
    some (.ok (), { w with status := w.status.set state win32ExitCode })
  | reportStatus => some (.ok (), { w with reported := w.status :: w.reported })
  | createStopEvent => some (.ok (none : Option UInt32), { w with eventOpen := true })
  | waitForStopEvent => if w.host.stopSignalled = true then some (.ok (), w) else none
  | closeStopEvent => some (.ok (), { w with eventOpen := false })
  | construct o => some (.ok (), { w with life := Function.update w.life o .alive })
  | destroy o => some (.ok (), { w with life := Function.update w.life o .destroyed })
  | unpublish => some (.ok (), { w with host := { w.host with published := false } })
  | readerJoinable => some (.ok w.readerJoinable, w)
  | connectPort => some (.ok driver, if driver = true then { w with isPortOpen := true } else w)
  | registerService => some (.ok true, w)
  | storeStopRequested stop => some (.ok (), { w with stopRequested := stop })
  | loadStopRequested => some (.ok w.stopRequested, w)
  | spawnReader => some (.ok (), { w with readerJoinable := true, readerAlive := true })
  | cancelSynchronousIo => some (.ok (), w)
  | portOpen => some (.ok w.isPortOpen, w)
  | closePort => some (.ok (), { w with isPortOpen := false })
  | joinReader =>
    if w.readerAlive = false then some (.ok (), { w with readerJoinable := false }) else none
  | exitReader => some (.ok (), { w with readerAlive := false })
  | terminate => some (.ok (), { w with terminated := true })

theorem MainCall.does_ok {driver : Bool} {w w' : MainWorld V} {a : MainCall}
    {r : Except String a.Answer} (h : a.does driver w = some (r, w')) : a.Does w r w' := by
  cases a with
  | waitForStopEvent | joinReader =>
    simp only [MainCall.does, Option.ite_none_right_eq_some] at h
    obtain ⟨hc, h⟩ := h
    cases h
    exact ⟨hc, rfl⟩
  | readerJoinable | loadStopRequested | portOpen => cases h; exact ⟨rfl, rfl⟩
  | _ => cases h; rfl

/-- The answers of the process on a disk. -/
def mainAnswer (driver : Bool) (w : MainWorld Disk) :
    (a : mainCalls.Act) → Option (Except String (mainCalls.Resp a) × MainWorld Disk)
  | .inl a =>
    if w.terminated = false then
      (serviceAnswer none [] w.host a).map fun x => (x.1, { w with host := x.2 })
    else none
  | .inr a => if w.terminated = false then a.does driver w else none

theorem mainExec_mainAnswer {s : Hosting Disk} (hs : s.sv.platform = Disk.platform) {driver : Bool}
    {w w' : MainWorld Disk} {a : mainCalls.Act} {r : Except String (mainCalls.Resp a)}
    (h : mainAnswer driver w a = some (r, w')) : mainExec s w a r w' := by
  cases a with
  | inl a =>
    simp only [mainAnswer, Option.ite_none_right_eq_some] at h
    obtain ⟨hrunning, h⟩ := h
    obtain ⟨⟨x, host⟩, hx, h⟩ := Option.map_eq_some_iff.1 h
    cases h
    exact ⟨hrunning, host, hostExec_serviceAnswer hs hx, rfl⟩
  | inr a =>
    by_cases hrunning : w.terminated = false
    · have hdoes : MainCall.does driver w a = some (r, w') := (if_pos hrunning).symm.trans h
      exact ⟨hrunning, MainCall.does_ok hdoes⟩
    · cases (if_neg hrunning).symm.trans h

/-- Plays schedules of the process on a disk, on which the driver sends nothing. -/
def mainPlayer (driver : Bool) (s : Hosting Disk) (hs : s.sv.platform = Disk.platform) :
    Player (serviceProcess s) ℤ where
  act := mainAnswer driver
  env clock w := { w with host := { w.host with service := { w.host.service with clock } } }
  menu := mainMenu
  envOk clock w := w.host.service.clock ≤ clock
  act_ok := mainExec_mainAnswer hs
  menu_ok := id
  env_ok {clock _} h := ⟨_, ⟨_, ⟨clock, of_decide_eq_true h, rfl⟩, rfl⟩, rfl⟩

end SsdCache.ServiceMain
