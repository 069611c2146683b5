import SsdCache.Spec.PathMapper
import SsdCache.Spec.Utf

/-!
# The driver's messages

What the driver puts into a `CACHEMON_EVENT`, and what `WinFilterActivitySource` reads off
one: the two path fields are cut at their terminator, the path is mapped onto the configured
source, and the kind is converted.
-/

namespace SsdCache

def cachemonEventVersion : UInt32 := 1

def cachemonMaxRootChars : ℕ := 260

def cachemonMaxRelativeChars : ℕ := 1024

/-- `CACHEMON_EVENT`; the arrays are given by their units. -/
structure CachemonEvent where
  version : UInt32 := cachemonEventVersion
  kind : UInt32 := 1
  sizeHint : UInt64 := 0
  requestorPid : UInt64 := 0
  sourceRootId : WString := []
  relativePath : WString
  deriving DecidableEq, Repr

/-- `CachemonCopyUnicodeString` into a buffer of this content; `none` is a null source. -/
def cachemonCopyUnicodeString (destination : WString) (source : Option WString) : WString :=
  let destinationCount := destination.length
  if destinationCount = 0 then destination
  else
    let destination := List.replicate destinationCount 0
    match source with
    | none | some [] => destination
    | some name =>
      let charsToCopy := if name.length ≥ destinationCount then destinationCount - 1 else name.length
      name.take charsToCopy ++ destination.drop charsToCopy

/-- The event that `CachemonSendEvent` fills in: all other fields stay zero. -/
def sentEvent (kind : UInt32) (requestorPid : UInt64) (name : WString) : CachemonEvent where
  kind := kind
  requestorPid := requestorPid
  sourceRootId := List.replicate cachemonMaxRootChars 0
  relativePath := cachemonCopyUnicodeString (List.replicate cachemonMaxRelativeChars 0) (some name)

/-- `wcsnlen_s` units of `value`. -/
def boundedWstring (value : WString) (limit : ℕ) : WString := (value.take limit).takeWhile (· ≠ 0)

def convertKind (kind : UInt32) : AccessKind :=
  if kind = 1 then .readOpen
  else if kind = 2 then .writeObserved
  else if kind = 3 then .writeClosed
  else if kind = 4 then .rename
  else if kind = 5 then .delete
  else .readOpen

/-- The identity that `reader_loop` gives an event, or `none` when it drops it: a path
that is not of the source keeps the root and the path the driver wrote, if it wrote a root. -/
def eventIdentity (fold : CaseFold) (sourceUnc : WString) (event : CachemonEvent) :
    Option PathIdentity :=
  let sourceRootId := boundedWstring event.sourceRootId cachemonMaxRootChars
  let relativePath := boundedWstring event.relativePath cachemonMaxRelativeChars
  let mapped := mapObservedSourcePath fold sourceUnc
    (if sourceRootId = [] then relativePath else joinRootRelative sourceRootId relativePath)
  match mapped with
  | some identity => some identity
  | none => if sourceRootId = [] then none else some ⟨sourceRootId, relativePath⟩

/-- The identity of a message of this driver version. -/
def readIdentity (fold : CaseFold) (sourceUnc : WString) (event : CachemonEvent) :
    Option PathIdentity :=
  if event.version ≠ cachemonEventVersion then none else eventIdentity fold sourceUnc event

/-- The event that `reader_loop` hands to the callback. -/
def accessEvent (event : CachemonEvent) (identity : PathIdentity) (observedAt : ℤ) : AccessEvent where
  sourceRootId := identity.sourceRootId
  relativePath := identity.relativePath
  kind := convertKind event.kind
  sizeHint := event.sizeHint
  requestorPid := event.requestorPid
  observedAt := observedAt

end SsdCache
