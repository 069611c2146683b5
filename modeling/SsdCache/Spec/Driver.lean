import SsdCache.Atomic.Machine
import SsdCache.Spec.AccessEvent

/-!
# The driver

The write and cleanup callbacks of `driver.c` for one file handle. One step is a Filter
Manager call or an access to a field of a stream-handle context. Contexts are numbered as
they are allocated; a context lives as long as a callback can use it, so reference counts
are left out. Allocation succeeds, and the only refusal of an attachment is that of
`FLT_SET_CONTEXT_KEEP_IF_EXISTS`.
-/

namespace SsdCache

open Atomic

/-- A `CACHEMON_STREAM_HANDLE_CONTEXT`, by the order of allocation. -/
abbrev ContextId : Type := ℕ

inductive DriverCall
  /-- The Filter Manager enters the pre-cleanup callback of the handle. -/
  | enterCleanup
  /-- `CachemonShouldIgnore` -/
  | shouldIgnore
  | getStreamHandleContext
  | allocateContext
  | zeroMemory (context : ContextId)
  /-- With `FLT_SET_CONTEXT_KEEP_IF_EXISTS`. -/
  | setStreamHandleContext (context : ContextId)
  | storeWriteObserved (context : ContextId)
  | loadWriteObserved (context : ContextId)
  | releaseContext (context : ContextId)
  | deleteStreamHandleContext
  /-- The call of `CachemonSendEvent`. -/
  | sendEvent (kind : AccessKind)
  | getFileNameInformation
  /-- `FltSendMessage` under the client lock, if a client is connected. -/
  | sendMessage (kind : AccessKind)
  | releaseFileNameInformation
  deriving DecidableEq, Repr

/-- Statuses are `true` when `NT_SUCCESS`; a lookup that fails finds no context. -/
def DriverCall.Answer : DriverCall → Type
  | shouldIgnore | setStreamHandleContext _ | loadWriteObserved _ => Bool
  | getFileNameInformation | sendMessage _ => Bool
  | getStreamHandleContext | allocateContext => Option ContextId
  | _ => Unit

def driverCalls : Sig := ⟨DriverCall, DriverCall.Answer⟩

/-- Callbacks do not throw. -/
abbrev Callback (α : Type) : Type := Prog driverCalls Empty α

def driver (a : DriverCall) : Callback a.Answer := Prog.perform (S := driverCalls) a

/-! ## The callbacks -/

def cachemonSendEvent (kind : AccessKind) : Callback Unit := do
  driver (.sendEvent kind)
  let ignored : Bool ← driver .shouldIgnore
  if ignored then pure ()
  else do
    let resolved : Bool ← driver .getFileNameInformation
    if resolved then do
      let _ : Bool ← driver (.sendMessage kind)
      driver .releaseFileNameInformation
    else pure ()

/-- Mark the handle as written, release the context and report the write. -/
def markWritten (context : Option ContextId) : Callback Unit :=
  match context with
  | some context => do
    driver (.storeWriteObserved context)
    driver (.releaseContext context)
    cachemonSendEvent .writeObserved
  | none => cachemonSendEvent .writeObserved

def cachemonPreWrite : Callback Unit := do
  let ignored : Bool ← driver .shouldIgnore
  if ignored then pure ()
  else do
    let found : Option ContextId ← driver .getStreamHandleContext
    match found with
    | some context => markWritten (some context)
    | none => do
      let allocated : Option ContextId ← driver .allocateContext
      match allocated with
      | some context => do
        driver (.zeroMemory context)
        -- the status is not looked at, so a refused context is marked like an attached one
        let _ : Bool ← driver (.setStreamHandleContext context)
        markWritten (some context)
      | none => markWritten none

/-- The end of the cleanup of a handle that carries a context. -/
def dropContext (context : ContextId) : Callback Unit := do
  driver .deleteStreamHandleContext
  driver (.releaseContext context)

def cachemonPreCleanup : Callback Unit := do
  driver .enterCleanup
  let found : Option ContextId ← driver .getStreamHandleContext
  match found with
  | some context => do
    let writeObserved : Bool ← driver (.loadWriteObserved context)
    if writeObserved then do
      cachemonSendEvent .writeClosed
      dropContext context
    else dropContext context
  | none => pure ()

/-! ## The handle -/

/-- One file handle: the context attached to it, the contexts' fields, and whether its
cleanup has begun. -/
structure FileHandle where
  attached : Option ContextId := none
  allocated : ℕ := 0
  writeObserved : ContextId → Bool
  closing : Bool := false

/-- What a call does. Whether an operation is ignored, has a name and finds a client is left
open. -/
def driverExec (w : FileHandle) :
    (a : DriverCall) → Except Empty a.Answer → FileHandle → Prop
  | .enterCleanup, _, w' => w' = { w with closing := true }
  | .getStreamHandleContext, .ok found, w' => found = w.attached ∧ w' = w
  | .allocateContext, .ok context, w' =>
    context = some w.allocated ∧ w' = { w with allocated := w.allocated + 1 }
  | .zeroMemory context, _, w' =>
    w' = { w with writeObserved := Function.update w.writeObserved context false }
  | .setStreamHandleContext context, .ok success, w' =>
    if w.attached = none then success = true ∧ w' = { w with attached := some context }
    else success = false ∧ w' = w
  | .storeWriteObserved context, _, w' =>
    w' = { w with writeObserved := Function.update w.writeObserved context true }
  | .loadWriteObserved context, .ok writeObserved, w' =>
    writeObserved = w.writeObserved context ∧ w' = w
  | .deleteStreamHandleContext, _, w' => w' = { w with attached := none }
  | .shouldIgnore, _, w' | .releaseContext _, _, w' | .sendEvent _, _, w' => w' = w
  | .getFileNameInformation, _, w' | .sendMessage _, _, w' => w' = w
  | .releaseFileNameInformation, _, w' => w' = w

/-- Any number of writers, and the one cleanup. -/
inductive Caller
  | writer (n : ℕ)
  | cleanup
  deriving DecidableEq, Repr

abbrev HandleState : Type := Atomic.Config driverCalls Empty FileHandle Caller

abbrev HandleEvent : Type := Label driverCalls Empty Caller Unit

abbrev HandleHistory : Type := Hist driverCalls Empty FileHandle Caller Unit

/-- Writers write at any time. -/
def fileHandle : Machine driverCalls Empty FileHandle Caller Unit where
  body _ := cachemonPreWrite
  menu t _ _ := t ≠ .cleanup
  exec := driverExec
  env _ _ := False

/-- A fresh handle over some memory; its cleanup is still to come. -/
def opened (memory : ContextId → Bool) : HandleState where
  world := { writeObserved := memory }
  prog
    | .cleanup => cachemonPreCleanup
    | .writer _ => .ret ()

/-! ## What was reported -/

/-- A writer's `WriteObserved` message goes to the client. -/
def sendsWrite : HandleEvent → Bool
  | .act (.writer _) (.sendMessage .writeObserved) (.ok sent) => sent
  | _ => false

/-- The cleanup calls `CachemonSendEvent` with `CachemonAccessWriteClosed`. -/
def reportsClose : HandleEvent → Bool
  | .act .cleanup (.sendEvent .writeClosed) _ => true
  | _ => false

/-- The `WriteObserved` message of a write was sent before the cleanup began. -/
def WriteReported (h : HandleHistory) : Prop :=
  ∃ x ∈ h, x.1.closing = false ∧ sendsWrite x.2 = true

def CloseReported (h : HandleHistory) : Prop := ∃ x ∈ h, reportsClose x.2 = true

instance (h : HandleHistory) : Decidable (WriteReported h) :=
  inferInstanceAs (Decidable (∃ x ∈ h, _))

instance (h : HandleHistory) : Decidable (CloseReported h) :=
  inferInstanceAs (Decidable (∃ x ∈ h, _))

/-- A written handle is reported closed: a cleanup that has ended has reported the close if
a write was reported before it began. -/
def ReportedClosed (h : HandleHistory) (c : HandleState) : Prop :=
  WriteReported h → (c.prog .cleanup).Done → CloseReported h

instance (h : HandleHistory) (c : HandleState) : Decidable (ReportedClosed h c) :=
  inferInstanceAs (Decidable (_ → _ → _))

/-- The context that writer `n` marks was refused, because another one was attached. -/
def refused (n : ℕ) : HandleHistory → Bool
  | [] => false
  | (_, .act (.writer m) (.setStreamHandleContext _) (.ok success)) :: h =>
    if m = n then !success else refused n h
  | (_, .act (.writer m) .getStreamHandleContext _) :: h => m ≠ n && refused n h
  | _ :: h => refused n h

/-- The step is one of a writer whose context was refused. -/
def refusedWriter (h : HandleHistory) : HandleEvent → Bool
  | .act (.writer n) _ _ => refused n h
  | _ => false

/-- The attached context is marked as written. -/
def FileHandle.Marked (w : FileHandle) : Prop :=
  ∃ context ∈ w.attached, w.writeObserved context = true

instance (w : FileHandle) : Decidable w.Marked := inferInstanceAs (Decidable (∃ _ ∈ _, _))

/-- A writer whose context was refused has its write reported, before the cleanup begins,
only when the attached context is already marked. -/
def RefusedAfterMark (h : HandleHistory) (w : FileHandle) (l : HandleEvent) : Prop :=
  sendsWrite l = true → w.closing = false → refusedWriter h l = true → w.Marked

instance (h : HandleHistory) (w : FileHandle) (l : HandleEvent) :
    Decidable (RefusedAfterMark h w l) := inferInstanceAs (Decidable (_ → _ → _ → _))

end SsdCache
