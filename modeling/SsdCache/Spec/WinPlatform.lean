import SsdCache.Atomic.Trace
import SsdCache.Spec.WinFileCopy

/-!
# The Windows platform

The Windows engine and its cache volume as the `Platform` that the scheduler runs on: one call
of the scheduler is one run of the engine's program. The volume finds files ignoring case, and
only the engine writes it, so that reading a cache file to its end gives its content. When a
cancellation is seen is left open, and so is the free space.
-/

namespace SsdCache

open Atomic

/-- What a call has read from the file open as `handle`. -/
def chunkFrom (handle : ℕ) : winCalls.Answered String → Option Bytes
  | ⟨.readFile h _, .ok (.ok data)⟩ => if h = handle then some data else none
  | _ => none

/-- What is read of the file at `path`, from its opening to a read that gives nothing, is its
content. A read of no size gives nothing anywhere. -/
def ReadsBack (path : WString) (content : Option Bytes) (tr : List (winCalls.Answered String)) :
    Prop :=
  ∀ pre handle mid size post,
    tr = pre ++ ⟨.openExisting path, .ok (.ok handle)⟩ ::
      (mid ++ ⟨.readFile handle size, .ok (.ok [])⟩ :: post) →
    size ≠ 0 → (∀ x ∈ mid, x.1 ≠ .closeHandle handle) →
    content = some (mid.filterMap (chunkFrom handle)).flatten

/-- The content of the file at an absolute path. -/
def WinWorld.contentAt (fold : CaseFold) (w : WinWorld) (path : WString) : Option Bytes :=
  w.files (lowerRoot fold (extendedPath path))

def winPlatform (fold : CaseFold) (sha256 : Bytes → Bytes) (engine : WinFileCopyEngine) :
    Platform WinWorld where
  copyAndHash v source cache compareHash _ r v' :=
    ∃ fuel tr, (engine.copyAndHash fuel source cache compareHash).Traces
        (namedExec (lowerRoot fold) sha256) v tr (r.map some) v' ∧
      ReadsBack (extendedPath cache) (v.contentAt fold cache) tr
  removeCachedFile v cache r v' :=
    ∃ tr, (WinFileCopyEngine.removeCachedFile cache).Traces
      (namedExec (lowerRoot fold) sha256) v tr r v'
  freeBytes _ _ _ := True
  HasFile v path := (v.contentAt fold path).isSome

end SsdCache
