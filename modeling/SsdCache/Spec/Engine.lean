import SsdCache.Spec.AccessEvent
import Mathlib.Data.UInt

/-!
# The copy engine and its surroundings

The interfaces of `copy_engine.h`: what the engine answers, the resolver of
relative paths, and the volume behind them. An engine is a relation between the
volume before a call, the answer and the volume after it (`Platform`), so every
engine behaviour is one; `Platform.HonoursInterface` is what the interface
documents about the files themselves.
-/

namespace SsdCache

/-- Outcome of a single copy attempt. -/
inductive CopyAction
  | copied
  | skippedSameSize
  | skippedHashMatch
  | sourceMissing
  | failed
  | cancelled
  deriving DecidableEq, Repr

/-- The actions that leave a cache file behind: copied or skipped. -/
def CopyAction.Cached (action : CopyAction) : Prop :=
  action = .copied ∨ action = .skippedSameSize ∨ action = .skippedHashMatch

instance (action : CopyAction) : Decidable action.Cached :=
  inferInstanceAs (Decidable (_ ∨ _))

structure CopyResult where
  action : CopyAction := .failed
  sourceSizeBytes : UInt64 := 0
  cachedSizeBytes : UInt64 := 0
  hashHex : String := ""
  completedAt : ℤ
  errorMessage : String := ""
  deriving DecidableEq, Repr

structure RemoveResult where
  removed : Bool := false
  missing : Bool := false
  errorMessage : String := ""
  deriving DecidableEq, Repr

/-- Whether the engine reported no error. -/
def RemoveResult.Clean (result : RemoveResult) : Prop := result.errorMessage = ""

instance (result : RemoveResult) : Decidable result.Clean :=
  inferInstanceAs (Decidable (_ = _))

/-- `ICopyPathResolver`. -/
structure PathResolver where
  sourceAbsolute : WString → WString
  cacheAbsolute : WString → WString

/-- The copy engine and the free-space provider over a volume of type `V`. -/
structure Platform (V : Type) where
  /-- Source, cache path, `compare_hash_before_overwrite` and the cancellation flag. -/
  copyAndHash : V → WString → WString → Bool → Bool → Except String CopyResult → V → Prop
  removeCachedFile : V → WString → Except String RemoveResult → V → Prop
  freeBytes : V → WString → Except String (Option UInt64) → Prop
  /-- The file at an absolute cache path exists. -/
  HasFile : V → WString → Prop

variable {V : Type}

/-- The engine honours its interface: a copied or skipped file exists, a removal
without error leaves none, every other answer leaves the file as it was, and no
other path is touched. -/
structure Platform.HonoursInterface (E : Platform V) : Prop where
  copy_cached : ∀ {v v' s c m k r}, E.copyAndHash v s c m k (.ok r) v' → r.action.Cached →
    E.HasFile v' c
  copy_kept : ∀ {v v' s c m k r}, E.copyAndHash v s c m k (.ok r) v' → ¬ r.action.Cached →
    (E.HasFile v' c ↔ E.HasFile v c)
  copy_frame : ∀ {v v' s c m k r x}, E.copyAndHash v s c m k (.ok r) v' → x ≠ c →
    (E.HasFile v' x ↔ E.HasFile v x)
  remove_clean : ∀ {v v' c r}, E.removeCachedFile v c (.ok r) v' → r.Clean → ¬ E.HasFile v' c
  remove_kept : ∀ {v v' c r}, E.removeCachedFile v c (.ok r) v' → ¬ r.Clean →
    (E.HasFile v' c ↔ E.HasFile v c)
  remove_frame : ∀ {v v' c r x}, E.removeCachedFile v c (.ok r) v' → x ≠ c →
    (E.HasFile v' x ↔ E.HasFile v x)

/-- A call that throws leaves every file as it was. -/
structure Platform.KeepsOnThrow (E : Platform V) : Prop where
  copy_throws : ∀ {v v' s c m k e x}, E.copyAndHash v s c m k (.error e) v' →
    (E.HasFile v' x ↔ E.HasFile v x)
  remove_throws : ∀ {v v' c e x}, E.removeCachedFile v c (.error e) v' →
    (E.HasFile v' x ↔ E.HasFile v x)

/-- `SchedulerSettings`; durations in seconds. -/
structure SchedulerSettings where
  copyDelay : ℤ := 60
  compareHashBeforeOverwrite : Bool := false
  dueBatchSize : ℤ := 32
  minFreeBytes : UInt64 := 0
  cacheRoot : WString := []
  deriving DecidableEq, Repr

/-- What a `PendingCopyScheduler` is constructed with; `freeSpace` tells whether a
free-space provider was supplied. -/
structure Service (V : Type) where
  platform : Platform V
  pathResolver : PathResolver
  settings : SchedulerSettings := {}
  freeSpace : Bool := true

end SsdCache
