import SsdCache.Spec.Engine
import SsdCache.Spec.PathMapper

/-!
# The configuration

`AppConfig` (`config.h`) and what the service derives from it: the path resolver and
the scheduler's settings of `win_service_host.cpp`.
-/

namespace SsdCache

inductive AppMode
  | disabled
  | monitor
  | serve
  deriving DecidableEq, Repr

/-- A drive letter: one UTF-16 unit. -/
abbrev Letter : Type := UInt16

/-- `AppConfig`; `mode` is absent when it is to be inferred from the drive layout. -/
structure AppConfig where
  sourceUnc : WString := []
  /-- `L'N'` -/
  sourcePresentationLetter : Letter := 0x4E
  /-- `L'K'` -/
  cacheLetter : Letter := 0x4B
  sqlitePath : WString := []
  mode : Option AppMode := none
  copyDelay : ℤ := 60
  compareHashBeforeOverwrite : Bool := false
  minFreeBytes : UInt64 := 6 * 1024 * 1024 * 1024
  ignoredProcessPatterns : List WString := [wide "explorer.exe"]
  ignoredPathPatterns : List WString := [wide "~$*", wide "*-wal", wide "*-shm", wide "*-journal"]
  deriving DecidableEq, Repr

def cacheRootFromConfig (config : AppConfig) : WString := config.cacheLetter :: wide ":\\"

/-- `RootedPathResolver` -/
def rootedPathResolver (config : AppConfig) : PathResolver where
  sourceAbsolute relativePath := joinRootRelative config.sourceUnc relativePath
  cacheAbsolute relativePath := joinRootRelative (cacheRootFromConfig config) relativePath

/-- The settings that `run_worker` takes from the configuration. -/
def schedulerSettings (config : AppConfig) : SchedulerSettings where
  copyDelay := config.copyDelay
  compareHashBeforeOverwrite := config.compareHashBeforeOverwrite
  minFreeBytes := config.minFreeBytes
  cacheRoot := cacheRootFromConfig config

/-- What `run_worker` constructs its scheduler with. -/
def hostService {V : Type} (platform : Platform V) (config : AppConfig) : Service V where
  platform := platform
  pathResolver := rootedPathResolver config
  settings := schedulerSettings config
  freeSpace := true

end SsdCache
