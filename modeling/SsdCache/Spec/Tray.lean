import SsdCache.Spec.ServiceHost

/-!
# The tray application

The mode requests of `tray_main.cpp`. A request runs in the user's session and sends a
control to the service, which handles it before `send_mode` returns.
-/

namespace SsdCache

open Atomic

/-- `WinServiceController::send_mode` -/
def sendMode (mode : AppMode) : HostTask Bool := do
  let delivered : Bool ← host (.controlService mode)
  if delivered then do
    let result ← handleControl (.mode mode)
    pure (result = .noError)
  else pure false

def inferCurrentMode (fold : CaseFold) (config : AppConfig) : HostTask (Option AppMode) := do
  let sourceMapping : Option WString ←
    host (.drive (.networkUncForDrive config.sourcePresentationLetter))
  match sourceMapping with
  | some unc => if equalsIgnoreCase fold unc config.sourceUnc then pure (some .monitor) else pure none
  | none => do
    let sourceVolume : Option WString ←
      host (.drive (.volumeNameForDrive config.sourcePresentationLetter))
    if sourceVolume.isSome then do
      let cacheVolume : Option WString ← host (.drive (.volumeNameForDrive config.cacheLetter))
      if cacheVolume.isSome then pure none else pure (some .serve)
    else pure none

def currentMode (fold : CaseFold) : HostTask AppMode := do
  let config : AppConfig ← host .loadConfig
  match config.mode with
  | some mode => pure mode
  | none => do
    let inferred ← inferCurrentMode fold config
    pure (inferred.getD .disabled)

def modeIsActive (fold : CaseFold) (mode : AppMode) : HostTask Bool := do
  let active ← currentMode fold
  pure (active = mode)

def persistMode (mode : AppMode) : HostTask Unit := do
  let config : AppConfig ← host .loadConfig
  host (.saveConfig { config with mode := some mode })

def enterMonitorMode (fold : CaseFold) : HostTask Bool := do
  let active ← modeIsActive fold .monitor
  if active then pure true
  else do
    let config : AppConfig ← host .loadConfig
    let switched ← sendMode .monitor
    if switched then do
      let _ ← host (.drive (.mapNetworkDrive config.sourcePresentationLetter config.sourceUnc))
      persistMode .monitor
      pure true
    else pure false

def enterServeMode (fold : CaseFold) : HostTask Bool := do
  let active ← modeIsActive fold .serve
  if active then pure true
  else do
    let config : AppConfig ← host .loadConfig
    let _ ← host (.drive (.unmapNetworkDrive config.sourcePresentationLetter))
    let switched ← sendMode .serve
    if switched then do
      persistMode .serve
      pure true
    else pure false

def enterDisabledMode (fold : CaseFold) : HostTask Bool := do
  let active ← modeIsActive fold .disabled
  if active then pure true
  else do
    let switched ← sendMode .disabled
    if switched then do
      persistMode .disabled
      pure true
    else pure false

def enterMode (fold : CaseFold) : AppMode → HostTask Bool
  | .disabled => enterDisabledMode fold
  | .monitor => enterMonitorMode fold
  | .serve => enterServeMode fold

end SsdCache
