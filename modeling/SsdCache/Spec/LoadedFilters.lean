import SsdCache.Atomic.Prog
import SsdCache.Binary.LittleEndian
import SsdCache.Spec.PathMapper

/-!
# The state of the driver

`query_driver_state`, `find_loaded_filter` and what it calls (`win_service_controller.cpp`): the
service manager's answer counts unless it is `Stopped`, because a filter may be loaded without
its service. The Filter Manager writes chains of `FILTER_FULL_INFORMATION` into a buffer of
bytes, and the buffer grows when it asks for more. A read outside the buffer is an exception
here. `Manager.Answers` is what the Filter Manager does while no filter comes or goes.
-/

namespace SsdCache.LoadedFilters

open Atomic Binary

/-! ## The buffer -/

section Scan

variable (fold : CaseFold) (buffer : List UInt8)

/-- `_wcsnicmp` of the units at place `i` and all of `name` is zero. -/
def sameUnits (i : ℕ) : WString → Option Bool
  | [] => some true
  | c :: name => do
    let unit ← readAt buffer i 2
    let u := fold.towlower (UInt16.ofNat unit)
    if u ≠ fold.towlower c then some false
    -- both names end here
    else if u = 0 then some true
    else sameUnits (i + 2) name

/-- `matches_filter_name`, of the entry at place `info`. -/
def matchesFilterName (info : ℕ) (filterName : WString) : Option Bool := do
  let filterNameLength ← readAt buffer (info + 12) 2
  let length := filterNameLength / 2
  if length = filterName.length then sameUnits fold buffer (info + 14) filterName
  else some false

/-- The loop of `buffer_contains_filter`, from the entry at place `current` on. -/
def containsFrom (filterName : WString) : ℕ → ℕ → Option Bool
  | 0, _ => none
  | fuel + 1, current => do
    let found ← matchesFilterName fold buffer current filterName
    if found then some true
    else do
      let nextEntryOffset ← readAt buffer current 4
      if nextEntryOffset = 0 then some false
      else containsFrom filterName fuel (current + nextEntryOffset)

/-- Every entry begins at another byte of the buffer. -/
def bufferContainsFilter (filterName : WString) : Option Bool :=
  containsFrom fold buffer filterName buffer.length 0

end Scan

/-! ## The enumeration -/

inductive FindCall
  /-- `FilterFindFirst` with a buffer of this size. -/
  | first (size : ℕ)
  | next (size : ℕ)

inductive FindAnswer
  /-- `S_OK`, with what it writes into the buffer. -/
  | entries (bytes : List UInt8)
  | insufficientBuffer (bytesReturned : ℕ)
  | noMoreItems
  /-- Any other error. -/
  | failed

def findCalls : Sig := ⟨FindCall, fun _ => FindAnswer⟩

abbrev FindTask (α : Type) : Type := Prog findCalls Unit α

def find (a : FindCall) : FindTask FindAnswer := Prog.perform (S := findCalls) a

/-- The buffer after an answer. -/
def FindAnswer.write (buffer : List UInt8) : FindAnswer → List UInt8
  | entries bytes => bytes ++ buffer.drop bytes.length
  | _ => buffer

/-- `buffer.resize` to a larger size. -/
def resize (buffer : List UInt8) (size : ℕ) : List UInt8 :=
  buffer ++ List.replicate (size - buffer.length) 0

/-- A call, and a second one when the buffer was too small. -/
def findEntries (call : ℕ → FindCall) (buffer : List UInt8) :
    FindTask (FindAnswer × List UInt8) := do
  let answer : FindAnswer ← find (call buffer.length)
  match answer with
  | .insufficientBuffer bytesReturned =>
    if bytesReturned > buffer.length then do
      let buffer := resize buffer bytesReturned
      let answer : FindAnswer ← find (call buffer.length)
      pure (answer, answer.write buffer)
    else pure (.insufficientBuffer bytesReturned, buffer)
  | answer => pure (answer, answer.write buffer)

variable (fold : CaseFold) (filterName : WString)

/-- Report the filter when the buffer has it, and go on otherwise; every error ends the
enumeration. -/
def scan (rest : List UInt8 → FindTask Bool) : FindAnswer × List UInt8 → FindTask Bool
  | (.entries _, buffer) =>
    match bufferContainsFilter fold buffer filterName with
    | none => .throw ()
    | some true => pure true
    | some false => rest buffer
  | _ => pure false

/-- The loop over `FilterFindNext`, for so many calls. -/
def findNext : ℕ → List UInt8 → FindTask Bool
  | 0, _ => .throw ()
  | fuel + 1, buffer => do
    let found ← findEntries .next buffer
    scan fold filterName (findNext fuel) found

def findLoadedFilter (fuel : ℕ) : FindTask Bool := do
  let found ← findEntries .first (List.replicate 4096 0)
  scan fold filterName (findNext fold filterName fuel) found

/-- `ServiceState` -/
inductive ServiceState
  | missing
  | stopped
  | startPending
  | stopPending
  | running
  deriving DecidableEq, Repr

def kDriverServiceName : WString := wide "CacheMon"

/-- `query_driver_state`, when the service manager has this answer. -/
def queryDriverState (serviceState : ServiceState) (fuel : ℕ) : FindTask ServiceState :=
  if serviceState = .missing ∨ serviceState = .startPending ∨ serviceState = .stopPending ∨
      serviceState = .running then pure serviceState
  else do
    let loaded : Bool ← findLoadedFilter fold kDriverServiceName fuel
    if loaded then pure .running else pure .stopped

/-! ## The Filter Manager -/

/-- The bytes of an entry without its name. -/
def headerSize : ℕ := 14

/-- `FILTER_FULL_INFORMATION`: the offset of the next entry, the frame and the instances, and
the name after its length. -/
def entry (nextEntryOffset : ℕ) (frameAndInstances : List UInt8) (filter : WString) : List UInt8 :=
  split 4 nextEntryOffset ++ (frameAndInstances ++
    (split 2 (2 * filter.length) ++ filter.flatMap fun u => split 2 u.toNat))

def entrySize (filter : WString) : ℕ := headerSize + 2 * filter.length

/-- The bytes begin with the entries of these filters, one at least. -/
def Entries (bytes : List UInt8) : List WString → Prop
  | [] => False
  | [filter] => 2 * filter.length < 256 ^ 2 ∧ ∃ middle tail,
    middle.length = 8 ∧ bytes = entry 0 middle filter ++ tail
  | filter :: filters => 2 * filter.length < 256 ^ 2 ∧ ∃ middle padding tail,
    middle.length = 8 ∧ entrySize filter + padding.length < 256 ^ 4 ∧
      bytes = entry (entrySize filter + padding.length) middle filter ++ (padding ++ tail) ∧
      Entries tail filters

/-- The loaded filters that were not reported yet, and whether a call has failed. -/
structure Manager where
  remaining : List WString
  failed : Bool := false

def FindCall.size : FindCall → ℕ
  | first size | next size => size

/-- The Filter Manager reports some of the remaining filters, or asks for a buffer in which the
next of them fits. -/
def Manager.Answers (m : Manager) (a : FindCall) : Except Unit FindAnswer → Manager → Prop
  | .ok (.entries bytes), m' => bytes.length ≤ a.size ∧ ∃ filters rest,
    Entries bytes filters ∧ m.remaining = filters ++ rest ∧ m' = { m with remaining := rest }
  | .ok (.insufficientBuffer bytesReturned), m' => (∃ filter rest, m.remaining = filter :: rest ∧
    a.size < entrySize filter ∧ entrySize filter ≤ bytesReturned) ∧ m' = m
  | .ok .noMoreItems, m' => m.remaining = [] ∧ m' = m
  | .ok .failed, m' => m' = { m with failed := true }
  | .error _, _ => False

/-- Up to the next multiple of eight bytes. -/
def padding (filter : WString) : List UInt8 :=
  List.replicate ((8 - entrySize filter % 8) % 8) 0

/-- The entry of a filter, or of two when both fit, with the second one aligned. -/
def entriesOf (size : ℕ) (filter : WString) : List WString → List UInt8 × List WString
  | [] => (entry 0 (List.replicate 8 0) filter, [])
  | second :: rest =>
    if 2 * second.length < 256 ^ 2 ∧
        entrySize filter + (padding filter).length + entrySize second ≤ size then
      (entry (entrySize filter + (padding filter).length) (List.replicate 8 0) filter ++
        (padding filter ++ entry 0 (List.replicate 8 0) second), rest)
    else (entry 0 (List.replicate 8 0) filter, second :: rest)

/-- A Filter Manager that reports two filters at a time. -/
def Manager.answer (m : Manager) (a : FindCall) : Option (Except Unit FindAnswer × Manager) :=
  match m.remaining with
  | [] => some (.ok .noMoreItems, m)
  | filter :: rest =>
    if 256 ^ 2 ≤ 2 * filter.length then some (.ok .failed, { m with failed := true })
    else if a.size < entrySize filter then
      some (.ok (.insufficientBuffer (entrySize filter)), m)
    else some (.ok (.entries (entriesOf a.size filter rest).1),
      { m with remaining := (entriesOf a.size filter rest).2 })

end SsdCache.LoadedFilters
