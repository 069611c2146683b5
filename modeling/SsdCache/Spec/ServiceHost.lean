import SsdCache.Atomic.Sum
import SsdCache.Spec.ActivitySource
import SsdCache.Spec.Drives
import SsdCache.Spec.Host

/-!
# The service process

`WinServiceHost` (`win_service_host.cpp`) over the calls of the scheduler and those of the
host: the configuration file, the drive letters, the two members that control the live
pipeline (`caching_active_` and `scheduler_`), and what Windows delivers. `hostExec` says
what a call does to the `HostWorld`.
-/

namespace SsdCache

open Atomic

/-- The controls that `handle_control` knows, and any other. -/
inductive Control
  | stop
  | shutdown
  | paramChange
  | mode (mode : AppMode)
  | other
  deriving DecidableEq, Repr

/-- What `handle_control` returns. -/
inductive ControlResult
  | noError
  | serviceSpecificError
  | callNotImplemented
  deriving DecidableEq, Repr

/-! ## Calls -/

inductive HostCall
  /-- `load_or_create_config` -/
  | loadConfig
  | saveConfig (config : AppConfig)
  /-- `CacheIndex::open` -/
  | openIndex
  | drive (a : MountCall)
  /-- `set_status(SERVICE_RUNNING)` -/
  | setRunning
  /-- `SetEvent(stop_event_)` -/
  | signalStop
  | storeCachingActive (active : Bool)
  | loadCachingActive
  /-- `scheduler_ = &scheduler` -/
  | publish
  /-- `scheduler_->set_paused` when it is published; under `scheduler_mutex_` as `publish`. -/
  | setPublishedPaused (paused : Bool)
  /-- `WinFilterActivitySource::start` -/
  | connect
  /-- `FilterGetMessage`; `none` when it fails. -/
  | getMessage
  /-- The image path of a process, empty when Windows does not tell. -/
  | processImage (pid : UInt64)
  /-- The handler returns to the service control manager. -/
  | reply (control : Control) (result : ControlResult)
  /-- `ControlService` of another process; whether the control reaches the service. -/
  | controlService (mode : AppMode)

def HostCall.Answer : HostCall → Type
  | loadConfig => AppConfig
  | drive a => a.Answer
  | loadCachingActive | controlService _ => Bool
  | getMessage => Option CachemonEvent
  | processImage _ => WString
  | _ => Unit

def hostOnly : Sig := ⟨HostCall, HostCall.Answer⟩

/-- The calls of the service process. -/
def hostCalls : Sig := calls.sum hostOnly

abbrev HostTask (α : Type) : Type := Prog hostCalls String α

/-- A call of the host. -/
def host (a : HostCall) : HostTask a.Answer := Prog.right (S := calls) (T := hostOnly) a

/-- A program of the scheduler or the index. -/
def lift {α : Type} (c : Task α) : HostTask α := c.left

/-- The scheduler's world, the configuration file, the drive letters and the host's members. -/
structure HostWorld (V : Type) where
  service : World V
  config : AppConfig := {}
  drives : Drives := fun _ => .free
  running : Bool := false
  stopSignalled : Bool := false
  cachingActive : Bool := false
  published : Bool := false
  connected : Bool := false

variable {V : Type}

/-- What may go wrong: calls on drives and controls may fail, the files may throw. -/
structure Faults where
  windows : Prop
  files : Prop

/-- What a call of the host does, and what it answers. -/
def HostCall.Does (faults : Faults) (w : HostWorld V) :
    (a : HostCall) → Except String a.Answer → HostWorld V → Prop
  | loadConfig, .ok config, w' => config = w.config ∧ w' = w
  | saveConfig config, .ok (), w' => w' = { w with config }
  | openIndex, .ok (), w' => w' = w
  | drive a, .ok r, w' =>
    ∃ drives, a.Answers faults.windows w.drives r drives ∧ w' = { w with drives }
  | setRunning, .ok (), w' => w' = { w with running := true }
  | signalStop, .ok (), w' => w' = { w with stopSignalled := true }
  | storeCachingActive active, .ok (), w' => w' = { w with cachingActive := active }
  | loadCachingActive, .ok active, w' => active = w.cachingActive ∧ w' = w
  | publish, .ok (), w' => w' = { w with published := true }
  | setPublishedPaused paused, .ok (), w' =>
    w' = if w.published then
      { w with service := { w.service with memory := { w.service.memory with paused } } }
    else w
  | connect, .ok (), w' => w' = { w with connected := true }
  | getMessage, .ok _, w' => w' = w
  | processImage _, .ok _, w' => w' = w
  | reply _ _, .ok (), w' => w' = w
  | controlService _, .ok delivered, w' => (delivered = true ∨ faults.windows) ∧ w' = w
  -- the file and the port may also throw; a failed save may leave any configuration
  | loadConfig, .error _, w' | openIndex, .error _, w' | connect, .error _, w' =>
    faults.files ∧ w' = w
  | saveConfig _, .error _, w' => faults.files ∧ ∃ config, w' = { w with config }
  | _, .error _, _ => False

/-- What a call does, and what it answers. -/
def hostExec (sv : Service V) (faults : Faults) (w : HostWorld V) :
    (a : hostCalls.Act) → Except String (hostCalls.Resp a) → HostWorld V → Prop
  | .inl a, r, w' =>
    ∃ service, exec sv w.service a r service ∧ w' = { w with service }
  | .inr a, r, w' => HostCall.Does faults w a r w'

/-! ## Modes -/

def modeEnablesCaching (mode : Option AppMode) : Bool :=
  match mode with
  | none => true
  | some mode => mode = .monitor

def applyCachingMode (mode : Option AppMode) : HostTask Unit := do
  let active := modeEnablesCaching mode
  host (.storeCachingActive active)
  host (.setPublishedPaused (!active))

/-- The cache volume goes back to the cache letter. -/
def moveCacheToMonitorLetter (config : AppConfig) : HostTask Bool := do
  let sourceVolume : Option WString ←
    host (.drive (.volumeNameForDrive config.sourcePresentationLetter))
  match sourceVolume with
  | none => pure true
  | some volume => do
    let cacheVolume : Option WString ← host (.drive (.volumeNameForDrive config.cacheLetter))
    if cacheVolume.isSome then pure true
    else do
      let _ ← host (.drive (.removeDriveMount config.sourcePresentationLetter))
      host (.drive (.assignVolumeToDrive volume config.cacheLetter))

/-- The cache volume goes to the presentation letter. -/
def moveCacheToSourceLetter (config : AppConfig) : HostTask Bool := do
  let cacheVolume : Option WString ← host (.drive (.volumeNameForDrive config.cacheLetter))
  match cacheVolume with
  | none => pure false
  | some volume => do
    let _ ← host (.drive (.removeDriveMount config.cacheLetter))
    let _ ← host (.drive (.removeDriveMount config.sourcePresentationLetter))
    host (.drive (.assignVolumeToDrive volume config.sourcePresentationLetter))

/-- What the three mode controls do alike: persist the mode and apply it. -/
def switchMode (config : AppConfig) (mode : AppMode) : HostTask ControlResult := do
  host (.saveConfig { config with mode := some mode })
  applyCachingMode (some mode)
  pure .noError

def handleControl (control : Control) : HostTask ControlResult :=
  match control with
  | .stop | .shutdown => do
    host .signalStop
    pure .noError
  | .paramChange => pure .noError
  | .mode .disabled => do
    let config : AppConfig ← host .loadConfig
    switchMode config .disabled
  | .mode .monitor => do
    let config : AppConfig ← host .loadConfig
    let moved : Bool ← moveCacheToMonitorLetter config
    if moved then switchMode config .monitor else pure .serviceSpecificError
  | .mode .serve => do
    let config : AppConfig ← host .loadConfig
    let moved : Bool ← moveCacheToSourceLetter config
    if moved then switchMode config .serve else pure .serviceSpecificError
  | .other => do
    let _ ← host .loadConfig
    pure .callNotImplemented

/-- `handler_thunk`: the control manager gets the result. -/
def handlerThunk (control : Control) : HostTask Unit := do
  let result : ControlResult ← handleControl control
  host (.reply control result)

/-! ## Startup -/

/-- What the filters of the configuration say, and which paths are directories. -/
structure Filters where
  pathIgnored : WString → Bool
  processIgnored : WString → Bool
  isDirectory : WString → Bool

/-- `service_main` up to the wait for the stop event. -/
def runWorker (filters : Filters) : HostTask Unit := do
  host .setRunning
  let config : AppConfig ← host .loadConfig
  host .openIndex
  lift (cleanupInvalidCacheRecords filters.pathIgnored filters.isDirectory)
  lift start
  host .publish
  applyCachingMode config.mode
  if config.sourceUnc = [] then pure () else host .connect

/-! ## Activity -/

/-- A conversion, for its exception. -/
def converted (value : Except String String) : HostTask String :=
  match value with
  | .ok text => pure text
  | .error error => .throw error

/-- `with_requestor_process` -/
def withRequestorProcess (event : AccessEvent) : HostTask AccessEvent := do
  let image : WString ← host (.processImage event.requestorPid)
  let process ← converted (wideToUtf8 image)
  pure { event with requestorProcess := process }

/-- `activity_event_message`, whose text is only logged. -/
def activityEventMessage (event : AccessEvent) : HostTask Unit := do
  let _ ← converted (wideToUtf8 event.relativePath)
  pure ()

/-- `should_ignore_activity_event`; every reason is logged. -/
def shouldIgnoreActivityEvent (filters : Filters) (event : AccessEvent) : HostTask Bool :=
  if event.relativePath = [] || filters.pathIgnored event.relativePath ||
      filters.processIgnored (utf8ToWide event.requestorProcess) ||
      filters.isDirectory event.relativePath then do
    activityEventMessage event
    pure true
  else pure false

/-- The callback that `run_worker` gives the activity source. -/
def onActivity (sv : Service V) (filters : Filters) (event : AccessEvent) : HostTask Unit := do
  let cachingActive : Bool ← host .loadCachingActive
  if cachingActive then do
    let enriched ← withRequestorProcess event
    let ignored ← shouldIgnoreActivityEvent filters enriched
    if ignored then pure ()
    else do
      activityEventMessage enriched
      lift (recordEvent sv enriched)
  else pure ()

/-- One pass of `reader_loop`. -/
def readerIteration (sv : Service V) (filters : Filters) (fold : CaseFold) (sourceUnc : WString) :
    HostTask Unit := do
  let message : Option CachemonEvent ← host .getMessage
  match message with
  | none => pure ()
  | some message =>
    match readIdentity fold sourceUnc message with
    | none => pure ()
    | some identity => do
      let now : ℤ ← lift (memory .now)
      onActivity sv filters (accessEvent message identity now)

end SsdCache
