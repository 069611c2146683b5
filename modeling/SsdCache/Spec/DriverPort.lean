import SsdCache.Atomic.Sum
import SsdCache.Spec.ActivitySource
import SsdCache.Spec.Driver
import Mathlib.Data.Finset.Insert

/-!
# The driver's client port

All callbacks of `driver.c`, on any number of threads: what `CachemonShouldIgnore` reads and
what surrounds `FltSendMessage`, below the calls of `Spec/Driver`; the connection, disconnection
and message callbacks; and the unload. Ports are numbered as the Filter Manager accepts
connections. Requests have their data; the log lines are left out.
-/

namespace SsdCache

open Atomic

/-! ## More operation callbacks -/

/-- `FILE_READ_DATA | GENERIC_READ` -/
def readAccess : UInt32 := 0x80000001

def cachemonPostCreate (draining success : Bool) (desiredAccess : UInt32) : Callback Unit :=
  if draining then pure ()
  else if !success then pure ()
  else if desiredAccess &&& readAccess ≠ 0 then cachemonSendEvent .readOpen
  else pure ()

def cachemonPreRead : Callback Unit := cachemonSendEvent .readOpen

/-- `FileRenameInformation` and `FileRenameInformationEx` -/
def renameClasses : List UInt32 := [10, 65]

/-- `FileDispositionInformation` and `FileDispositionInformationEx` -/
def dispositionClasses : List UInt32 := [13, 64]

def cachemonPreSetInformation (infoClass : UInt32) : Callback Unit :=
  if infoClass ∈ renameClasses then cachemonSendEvent .rename
  else if infoClass ∈ dispositionClasses then cachemonSendEvent .delete
  else pure ()

/-- `CACHEMON_ACCESS_KIND` -/
def AccessKind.code : AccessKind → UInt32
  | .readOpen => 1
  | .writeObserved => 2
  | .writeClosed => 3
  | .rename => 4
  | .delete => 5

namespace ClientPort

/-! ## Calls -/

abbrev ThreadId : Type := ℕ

/-- A client port, by the order of acceptance. -/
abbrev PortId : Type := ℕ

/-- The request that an operation callback is entered for. -/
structure Request where
  /-- `FLTFL_CALLBACK_DATA_GENERATED_IO` -/
  generated : Bool := false
  /-- `IRP_PAGING_IO | IRP_SYNCHRONOUS_PAGING_IO` -/
  paging : Bool := false
  requestorPid : UInt32
  /-- The normalized name. -/
  name : WString

/-- What a callback does in one step, with the thread where it matters. -/
inductive PortCall
  /-- The Filter Manager enters an operation callback. -/
  | enterOperation (t : ThreadId)
  | leaveOperation (t : ThreadId)
  /-- The calls about names and stream-handle contexts. -/
  | handle (a : DriverCall)
  | loadServicePid
  | storeServicePid (pid : UInt64)
  | acquireFastMutex (t : ThreadId)
  | releaseFastMutex (t : ThreadId)
  /-- `g_client_port != NULL` -/
  | clientPortSet
  | sendMessage (event : CachemonEvent)
  /-- `FltCloseClientPort`, which clears `g_client_port` too. -/
  | closeClientPort
  | storeClientPort (port : Option PortId)
  /-- The Filter Manager opens a port and enters the connection callback. -/
  | acceptConnection (t : ThreadId)
  /-- `g_server_port != NULL` -/
  | serverPortSet
  | closeCommunicationPort
  | clearServerPort
  /-- `g_filter != NULL` -/
  | filterSet
  | unregisterFilter
  | clearFilter

/-- Statuses are `true` when `NT_SUCCESS`. -/
def PortCall.Answer : PortCall → Type
  | handle a => a.Answer
  | loadServicePid => UInt64
  | clientPortSet | serverPortSet | filterSet | sendMessage _ => Bool
  | acceptConnection _ => PortId
  | _ => Unit

def portCalls : Sig := ⟨PortCall, PortCall.Answer⟩

abbrev PortTask (α : Type) : Type := Prog portCalls Empty α

def port (a : PortCall) : PortTask a.Answer := Prog.perform (S := portCalls) a

/-! ## The callbacks -/

def cachemonShouldIgnore (data : Request) : PortTask Bool :=
  if data.generated then pure true
  else if data.paging then pure true
  else do
    let pid : UInt64 ← port .loadServicePid
    if pid ≠ 0 then do
      let pid : UInt64 ← port .loadServicePid
      pure (decide (data.requestorPid.toUInt64 = pid))
    else pure false

/-- The event of a request. -/
def Request.event (data : Request) (kind : AccessKind) : CachemonEvent :=
  sentEvent kind.code data.requestorPid.toUInt64 data.name

/-- `CachemonSendEvent` from the filled event on: was there a client, and did the send
succeed? -/
def sendToClient (t : ThreadId) (event : CachemonEvent) : PortTask Bool := do
  port (.acquireFastMutex t)
  let connected : Bool ← port .clientPortSet
  if connected then do
    let status : Bool ← port (.sendMessage event)
    port (.releaseFastMutex t)
    pure status
  else do
    port (.releaseFastMutex t)
    pure false

/-- The steps of a driver call. -/
def implement (t : ThreadId) (data : Request) : (a : DriverCall) → PortTask a.Answer
  | .shouldIgnore => cachemonShouldIgnore data
  | .sendMessage kind => sendToClient t (data.event kind)
  | a => port (.handle a)

/-- An operation callback, between its entry and its return to the Filter Manager. -/
def operationCallback (t : ThreadId) (data : Request) (callback : Callback Unit) : PortTask Unit := do
  port (.enterOperation t)
  callback.expand (T := portCalls) (implement t data)
  port (.leaveOperation t)

def cachemonConnect (t : ThreadId) (clientPort : PortId) : PortTask Unit := do
  port (.acquireFastMutex t)
  let connected : Bool ← port .clientPortSet
  if connected then do
    port .closeClientPort
    port (.storeClientPort (some clientPort))
    port (.releaseFastMutex t)
  else do
    port (.storeClientPort (some clientPort))
    port (.releaseFastMutex t)

/-- The body that `CachemonDisconnect` and `CachemonUnload` share: close the port under the
lock, and go on under it with `rest`. -/
def dropClient (t : ThreadId) (rest : PortTask Unit) : PortTask Unit := do
  port (.acquireFastMutex t)
  let connected : Bool ← port .clientPortSet
  if connected then do
    port .closeClientPort
    port (.storeClientPort none)
    rest
    port (.releaseFastMutex t)
  else do
    rest
    port (.releaseFastMutex t)

def cachemonDisconnect (t : ThreadId) : PortTask Unit :=
  dropClient t (port (.storeServicePid 0))

/-- The fields of a `CACHEMON_COMMAND` that the driver reads. -/
structure CachemonCommand where
  version : UInt32
  command : UInt32
  servicePid : UInt64

/-- `sizeof(CACHEMON_COMMAND)` -/
def cachemonCommandSize : UInt32 := 1056

def cachemonCommandVersion : UInt32 := 1

/-- `CachemonCommandRegisterService` -/
def registerService : UInt32 := 1

/-- Was the command recognized? -/
def cachemonMessage (inputBufferLength : UInt32) (command : CachemonCommand) : PortTask Bool :=
  if inputBufferLength < cachemonCommandSize then pure false
  else if command.version ≠ cachemonCommandVersion then pure false
  else if command.command = registerService then do
    port (.storeServicePid command.servicePid)
    pure true
  else pure false

/-- The end of the unload. -/
def unregister : PortTask Unit := do
  let registered : Bool ← port .filterSet
  if registered then do
    port .unregisterFilter
    port .clearFilter
  else pure ()

def cachemonUnload (t : ThreadId) : PortTask Unit := do
  let listening : Bool ← port .serverPortSet
  if listening then do
    port .closeCommunicationPort
    port .clearServerPort
    dropClient t (pure ())
    unregister
  else do
    dropClient t (pure ())
    unregister

/-! ## The driver -/

/-- The globals of the driver, what the Filter Manager knows of it, and the ports: for each
accepted one the thread that entered the connection callback, and the closed ones. -/
structure PortWorld where
  lock : Option ThreadId := none
  clientPort : Option PortId := none
  servicePid : UInt64 := 0
  serverPort : Bool := true
  listening : Bool := true
  filter : Bool := true
  registered : Bool := true
  running : Finset ThreadId := ∅
  accepted : List ThreadId := []
  closed : List PortId := []

/-- The driver can use the port. -/
def PortWorld.Open (w : PortWorld) (p : PortId) : Prop := p < w.accepted.length ∧ p ∉ w.closed

/-- The driver has closed the port, or has it in `g_client_port`. -/
def PortWorld.Placed (w : PortWorld) (p : PortId) : Prop := p ∈ w.closed ∨ w.clientPort = some p

instance (w : PortWorld) (p : PortId) : Decidable (w.Open p) :=
  inferInstanceAs (Decidable (_ ∧ _))

instance (w : PortWorld) (p : PortId) : Decidable (w.Placed p) :=
  inferInstanceAs (Decidable (_ ∨ _))

/-- What a call does. The filter enters no callback once it is unregistered, and its
unregistering waits for those that run. Names, contexts and the fate of a message are left
open. -/
def portExec (w : PortWorld) : (a : PortCall) → Except Empty a.Answer → PortWorld → Prop
  | .enterOperation t, _, w' =>
    w.registered = true ∧ w' = { w with running := insert t w.running }
  | .leaveOperation t, _, w' => w' = { w with running := w.running.erase t }
  | .handle _, _, w' => w' = w
  | .loadServicePid, .ok pid, w' => pid = w.servicePid ∧ w' = w
  | .storeServicePid pid, _, w' => w' = { w with servicePid := pid }
  | .acquireFastMutex t, _, w' => w.lock = none ∧ w' = { w with lock := some t }
  | .releaseFastMutex _, _, w' => w' = { w with lock := none }
  | .clientPortSet, .ok connected, w' => connected = w.clientPort.isSome ∧ w' = w
  | .sendMessage _, _, w' => w' = w
  | .closeClientPort, _, w' =>
    w' = { w with clientPort := none, closed := w.clientPort.toList ++ w.closed }
  | .storeClientPort port, _, w' => w' = { w with clientPort := port }
  | .acceptConnection t, .ok port, w' =>
    w.listening = true ∧ port = w.accepted.length ∧ w' = { w with accepted := w.accepted ++ [t] }
  | .serverPortSet, .ok set, w' => set = w.serverPort ∧ w' = w
  | .closeCommunicationPort, _, w' => w' = { w with listening := false }
  | .clearServerPort, _, w' => w' = { w with serverPort := false }
  | .filterSet, .ok set, w' => set = w.filter ∧ w' = w
  | .unregisterFilter, _, w' => w.running = ∅ ∧ w' = { w with registered := false }
  | .clearFilter, _, w' => w' = { w with filter := false }

/-- What the Filter Manager calls. -/
inductive PortOperation
  | postCreate (data : Request) (draining success : Bool) (desiredAccess : UInt32)
  | preRead (data : Request)
  | preWrite (data : Request)
  | preCleanup (data : Request)
  | preSetInformation (data : Request) (infoClass : UInt32)
  | connect
  | disconnect
  | message (inputBufferLength : UInt32) (command : CachemonCommand)
  | unload

/-- The code of an operation on thread `t`. -/
def PortOperation.body (t : ThreadId) : PortOperation → PortTask Unit
  | postCreate data draining success desiredAccess =>
    operationCallback t data (cachemonPostCreate draining success desiredAccess)
  | preRead data => operationCallback t data cachemonPreRead
  | preWrite data => operationCallback t data cachemonPreWrite
  | preCleanup data => operationCallback t data cachemonPreCleanup
  | preSetInformation data infoClass =>
    operationCallback t data (cachemonPreSetInformation infoClass)
  | connect => do
    let clientPort : PortId ← port (.acceptConnection t)
    cachemonConnect t clientPort
  | disconnect => cachemonDisconnect t
  | message inputBufferLength command => do
    let _ : Bool ← cachemonMessage inputBufferLength command
    pure ()
  | unload => cachemonUnload t

abbrev PortState : Type := Atomic.Config portCalls Empty PortWorld ThreadId

abbrev PortEvent : Type := Label portCalls Empty ThreadId (ThreadId × PortOperation)

abbrev PortHistory : Type := Hist portCalls Empty PortWorld ThreadId (ThreadId × PortOperation)

/-- Any thread enters any callback at any time. -/
def portDriver : Machine portCalls Empty PortWorld ThreadId (ThreadId × PortOperation) where
  body o := o.2.body o.1
  menu t _ o := o.1 = t
  exec := portExec
  env _ _ := False

abbrev PortRun (h : PortHistory) (c : PortState) : Prop := Run portDriver (.idle {}) h c

/-! ## Replaying -/

/-- Names resolve, handles carry no context, and allocations fail. -/
def handleAnswer : (a : DriverCall) → a.Answer
  | .shouldIgnore | .loadWriteObserved _ => false
  | .setStreamHandleContext _ | .getFileNameInformation | .sendMessage _ => true
  | .getStreamHandleContext | .allocateContext => none
  | .enterCleanup | .zeroMemory _ | .storeWriteObserved _ | .releaseContext _ => ()
  | .deleteStreamHandleContext | .sendEvent _ | .releaseFileNameInformation => ()

/-- Every message is sent in time. -/
def portAnswer (w : PortWorld) : (a : PortCall) → Option (Except Empty a.Answer × PortWorld)
  | .enterOperation t =>
    if w.registered = true then some (.ok (), { w with running := insert t w.running }) else none
  | .leaveOperation t => some (.ok (), { w with running := w.running.erase t })
  | .handle a => some (.ok (handleAnswer a), w)
  | .loadServicePid => some (.ok w.servicePid, w)
  | .storeServicePid pid => some (.ok (), { w with servicePid := pid })
  | .acquireFastMutex t =>
    if w.lock = none then some (.ok (), { w with lock := some t }) else none
  | .releaseFastMutex _ => some (.ok (), { w with lock := none })
  | .clientPortSet => some (.ok w.clientPort.isSome, w)
  | .sendMessage _ => some (.ok true, w)
  | .closeClientPort =>
    some (.ok (), { w with clientPort := none, closed := w.clientPort.toList ++ w.closed })
  | .storeClientPort port => some (.ok (), { w with clientPort := port })
  | .acceptConnection t =>
    if w.listening = true then
      some (.ok w.accepted.length, { w with accepted := w.accepted ++ [t] })
    else none
  | .serverPortSet => some (.ok w.serverPort, w)
  | .closeCommunicationPort => some (.ok (), { w with listening := false })
  | .clearServerPort => some (.ok (), { w with serverPort := false })
  | .filterSet => some (.ok w.filter, w)
  | .unregisterFilter =>
    if w.running = ∅ then some (.ok (), { w with registered := false }) else none
  | .clearFilter => some (.ok (), { w with filter := false })

theorem exec_portAnswer {w w' : PortWorld} {a : PortCall} {r : Except Empty a.Answer}
    (h : portAnswer w a = some (r, w')) : portExec w a r w' := by
  cases a with
  | enterOperation t | acquireFastMutex t | unregisterFilter =>
    obtain ⟨hw, h⟩ := Option.ite_none_right_eq_some.1 h
    cases h
    exact ⟨hw, rfl⟩
  | acceptConnection t =>
    obtain ⟨hw, h⟩ := Option.ite_none_right_eq_some.1 h
    cases h
    exact ⟨hw, rfl, rfl⟩
  | loadServicePid | clientPortSet | serverPortSet | filterSet => cases h; exact ⟨rfl, rfl⟩
  | _ => cases h; rfl

/-- Plays schedules of callbacks. -/
def portPlayer : Player portDriver Unit where
  act := portAnswer
  env _ w := w
  menu t _ o := decide (o.1 = t)
  envOk _ _ := false
  act_ok := exec_portAnswer
  menu_ok := of_decide_eq_true
  env_ok h := Bool.noConfusion h

/-- Thread `t` enters a callback and makes `n` calls. -/
def portSteps (t : ThreadId) (o : PortOperation) (n : ℕ) :
    List (Move ThreadId (ThreadId × PortOperation) Unit) :=
  .call t (t, o) :: List.replicate n (.act t)

/-- A run of the callbacks with a property that can be computed. -/
theorem exists_portRun (ms : List (Move ThreadId (ThreadId × PortOperation) Unit))
    (p : PortHistory × PortState → Prop) [DecidablePred p]
    (hp : (portPlayer.play ms ([], .idle {})).any (fun x => decide (p x)) = true) :
    ∃ h c, PortRun h c ∧ p (h, c) := portPlayer.exists_run ms p hp

end ClientPort

end SsdCache
