import Mathlib.Data.Int.Notation
import Mathlib.Tactic.Common

/-!
# Access events

What the driver reports and the scheduler records (`access_event.h`).
-/

namespace SsdCache

/-- `std::wstring`: UTF-16 code units. -/
abbrev WString : Type := List UInt16

instance : LawfulBEq WString := inferInstance

inductive AccessKind
  | readOpen
  | writeObserved
  | writeClosed
  | rename
  | delete
  deriving DecidableEq, Repr

/-- One observed access; `observedAt` is in ticks. -/
structure AccessEvent where
  sourceRootId : WString := []
  relativePath : WString
  kind : AccessKind := .readOpen
  sizeHint : UInt64 := 0
  requestorPid : UInt64 := 0
  requestorProcess : String := ""
  observedAt : ℤ
  deriving DecidableEq, Repr

def accessKindToString : AccessKind → String
  | .readOpen => "read_open"
  | .writeObserved => "write_observed"
  | .writeClosed => "write_closed"
  | .rename => "rename"
  | .delete => "delete"

/-- Reads and closes of written files schedule a copy. -/
def shouldScheduleCopy (kind : AccessKind) : Bool := kind = .readOpen || kind = .writeClosed

end SsdCache
