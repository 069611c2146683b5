import SsdCache.Atomic.Link
import SsdCache.Spec.DriverPort
import SsdCache.Spec.ServiceMain

/-!
# From the driver to the index

The callbacks of the driver and the service process, side by side: a message given to
`FltSendMessage` waits in the client port until `FilterGetMessage` returns it or the send times
out, and the reader makes an update of the index out of it, or drops it. When the Filter Manager
enters the connection callbacks is left open, and so is which process is connected.
-/

namespace SsdCache.Delivery

open Atomic ClientPort ServiceMain

variable {V : Type}

def sends : PortEvent → Option CachemonEvent
  | .act _ (.sendMessage event) _ => some event
  | _ => none

def takes : MainEvent → Option CachemonEvent
  | .act .reader (.inl (.inr .getMessage)) (.ok (some message)) => some message
  | _ => none

/-- The client port. -/
def clientPort : Link portCalls Empty ThreadId (ThreadId × PortOperation)
    mainCalls String HostParty HostOperation CachemonEvent := ⟨sends, takes⟩

abbrev DeliveryState (V : Type) : Type :=
  LinkState portCalls Empty PortWorld ThreadId mainCalls String (MainWorld V) HostParty CachemonEvent

/-- The driver is loaded and the service starts. -/
def beginning (s : Hosting V) (w : HostWorld V) : DeliveryState V where
  left := .idle {}
  right := launched s.filters w
  queue := []

abbrev DeliveryRun (s : Hosting V) (w : HostWorld V) (h₁ : PortHistory) (h₂ : MainHistory V)
    (c : DeliveryState V) : Prop :=
  LinkRun clientPort portDriver (serviceProcess s) (beginning s w) h₁ h₂ c

/-! ## What the reader does with a message -/

/-- `should_ignore_activity_event`, without the log. -/
def ignores (filters : Filters) (event : AccessEvent) : Bool :=
  event.relativePath = [] || filters.pathIgnored event.relativePath ||
    filters.processIgnored (utf8ToWide event.requestorProcess) ||
    filters.isDirectory event.relativePath

/-- The update of the index that `record_event` makes. -/
def updateOf (s : Hosting V) (event : AccessEvent) : Update :=
  if event.kind = .delete then .markRemoved event.relativePath
  else .recordAccess event s.sv.settings.copyDelay

/-- The event that the callback makes of a message, with the process that Windows names. -/
def enriched (message : CachemonEvent) (identity : PathIdentity) (now : ℤ) (process : String) :
    AccessEvent :=
  { accessEvent message identity now with requestorProcess := process }

/-- The update is that of the message: of a path of the source that no filter ignores. -/
def Delivers (s : Hosting V) (u : Update) (message : CachemonEvent) : Prop :=
  ∃ identity now process, readIdentity s.fold s.sourceUnc message = some identity ∧
    ignores s.filters (enriched message identity now process) = false ∧
    u = updateOf s (enriched message identity now process)

/-- What the reader has seen and done since it took its last message: the time, the caching
flag, the image path of the process, the scheduler's pause and the updates it made. -/
structure Reading where
  message : Option CachemonEvent := none
  now : ℤ := 0
  active : Bool := true
  image : WString := []
  paused : Bool := false
  given : List Update := []
  terminated : Bool := false

def Reading.next (q : Reading) :
    (a : mainCalls.Act) → Except String (mainCalls.Resp a) → Reading
  | .inl (.inr .getMessage), .ok (some message) =>
    { message := some message, terminated := q.terminated }
  | .inl (.inl (.memory .now)), .ok now => { q with now := now }
  | .inl (.inr .loadCachingActive), .ok active => { q with active := active }
  | .inl (.inr (.processImage _)), .ok image => { q with image := image }
  | .inl (.inl (.memory .loadPaused)), .ok paused => { q with paused := paused }
  | .inl (.inl (.update u)), _ => { q with given := u :: q.given }
  | .inr .terminate, .ok () => { q with terminated := true }
  | _, _ => q

/-- The updates that a message makes: none when it is of another version or of no path of the
source, when caching is off or the scheduler pauses, or when a filter ignores it. -/
def Reading.updates (s : Hosting V) (q : Reading) (message : CachemonEvent) : List Update :=
  match readIdentity s.fold s.sourceUnc message, wideToUtf8 q.image with
  | some identity, .ok process =>
    let event := enriched message identity q.now process
    if q.active && !q.paused && !ignores s.filters event then [updateOf s event] else []
  | _, _ => []

/-- The last message is done with. -/
def Reading.Settled (s : Hosting V) (q : Reading) : Prop :=
  ∀ message ∈ q.message, q.given = q.updates s message

/-- Where the reader is with its last message. -/
def reading : MainHistory V → Reading
  | [] => {}
  | (_, .act .reader a r) :: h => (reading h).next a r
  | _ :: h => reading h

/-- The updates that the reader makes, oldest first. -/
def given : MainHistory V → List Update
  | [] => []
  | (_, .act .reader (.inl (.inl (.update u))) _) :: h => given h ++ [u]
  | _ :: h => given h

/-! ## Replaying -/

/-- The answers of the process on a disk, when the driver has this message. -/
def deliveryAnswer (message : CachemonEvent) (w : MainWorld Disk) :
    (a : mainCalls.Act) → Option (Except String (mainCalls.Resp a) × MainWorld Disk)
  | .inl (.inr .getMessage) =>
    if w.terminated = false then some (.ok (some message), w) else none
  | a => mainAnswer true w a

theorem mainExec_deliveryAnswer {s : Hosting Disk} (hs : s.sv.platform = Disk.platform)
    {message : CachemonEvent} {w w' : MainWorld Disk} {a : mainCalls.Act}
    {r : Except String (mainCalls.Resp a)} (h : deliveryAnswer message w a = some (r, w')) :
    mainExec s w a r w' := by
  have hmain : mainAnswer true w a = some (r, w') → mainExec s w a r w' := mainExec_mainAnswer hs
  rcases a with (a | a) | a
  · exact hmain h
  · cases a with
    | getMessage =>
      obtain ⟨hrunning, h⟩ := Option.ite_none_right_eq_some.1 h
      cases h
      exact ⟨hrunning, w.host, rfl, rfl⟩
    | _ => exact hmain h
  · exact hmain h

/-- Plays schedules of the process on a disk, to which the driver sends this message. -/
def deliveryPlayer (message : CachemonEvent) (s : Hosting Disk)
    (hs : s.sv.platform = Disk.platform) : Player (serviceProcess s) ℤ :=
  { mainPlayer true s hs with
    act := deliveryAnswer message
    act_ok := mainExec_deliveryAnswer hs }

end SsdCache.Delivery
