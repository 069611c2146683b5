import SsdCache.Spec.Calls

/-!
# Eviction from the command line

`evict_least_recently_used` (`cache_eviction.cpp`), which `--free` runs in a process
of its own on the service's database and cache volume.
-/

namespace SsdCache

open Atomic

structure EvictionResult where
  bytesFreed : UInt64 := 0
  filesRemoved : ℕ := 0
  deriving DecidableEq, Repr

/-- The loop over the victims, with what was freed so far. -/
def evictFiles (pathResolver : PathResolver) (targetBytes : UInt64) (exclude : WString) :
    List CachedFileRef → EvictionResult → Task EvictionResult
  | [], result => pure result
  | victim :: victims, result =>
    if result.bytesFreed ≥ targetBytes then pure result
    else if exclude ≠ [] ∧ victim.relativePath = exclude then
      evictFiles pathResolver targetBytes exclude victims result
    else do
      let removeResult : RemoveResult ← Prog.perform (S := calls)
        (.removeCachedFile victim.relativePath (pathResolver.cacheAbsolute victim.relativePath))
      if removeResult.Clean then do
        update (.markRemoved victim.relativePath)
        evictFiles pathResolver targetBytes exclude victims
          ⟨result.bytesFreed + victim.cachedSizeBytes, result.filesRemoved + 1⟩
      else evictFiles pathResolver targetBytes exclude victims result

def evictLeastRecentlyUsed (pathResolver : PathResolver) (targetBytes : UInt64)
    (exclude : WString) : Task EvictionResult :=
  if targetBytes = 0 then pure {}
  else do
    let victims : List CachedFileRef ← query .cachedFilesByLastAccess
    evictFiles pathResolver targetBytes exclude victims {}

end SsdCache
