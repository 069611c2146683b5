import SsdCache.Spec.Config
import Mathlib.Logic.Function.Basic

/-!
# Drive letters

The calls of `win_mount_manager.cpp` on a map from letters to what they stand for. A
mapping or mount succeeds when its letter is free. `MountCall.run` is the call that
succeeds whenever it can; `MountCall.Answers` is one that may also fail.
-/

namespace SsdCache

/-- What a drive letter stands for. -/
inductive Drive
  | free
  | volume (name : WString)
  | network (unc : WString)
  deriving DecidableEq, Repr

abbrev Drives : Type := Letter → Drive

def Drive.volumeName : Drive → Option WString
  | .volume name => some name
  | _ => none

def Drive.networkUnc : Drive → Option WString
  | .network unc => some unc
  | _ => none

/-- The calls on drive letters. -/
inductive MountCall
  | volumeNameForDrive (letter : Letter)
  | networkUncForDrive (letter : Letter)
  | mapNetworkDrive (letter : Letter) (unc : WString)
  | unmapNetworkDrive (letter : Letter)
  | removeDriveMount (letter : Letter)
  | assignVolumeToDrive (volumeName : WString) (letter : Letter)
  deriving DecidableEq, Repr

namespace MountCall

def Answer : MountCall → Type
  | volumeNameForDrive _ | networkUncForDrive _ => Option WString
  | _ => Bool

def run (drives : Drives) : (a : MountCall) → a.Answer × Drives
  | volumeNameForDrive letter => ((drives letter).volumeName, drives)
  | networkUncForDrive letter => ((drives letter).networkUnc, drives)
  | mapNetworkDrive letter unc =>
    -- `ERROR_ALREADY_ASSIGNED` counts as success and maps nothing
    (true, if drives letter = .free then Function.update drives letter (.network unc) else drives)
  | unmapNetworkDrive letter =>
    -- so does `ERROR_NOT_CONNECTED`
    (true, if (drives letter).networkUnc.isSome then Function.update drives letter .free
      else drives)
  | removeDriveMount letter =>
    (true, if (drives letter).volumeName.isSome then Function.update drives letter .free
      else drives)
  | assignVolumeToDrive volumeName letter =>
    if drives letter = .free then (true, Function.update drives letter (.volume volumeName))
    else (false, drives)

/-- The answer of a call that fails; it changes nothing. -/
def failure : (a : MountCall) → Option a.Answer
  | volumeNameForDrive _ | networkUncForDrive _ => none
  | mapNetworkDrive _ _ | unmapNetworkDrive _ | removeDriveMount _ | assignVolumeToDrive _ _ =>
    some false

/-- What a call answers and does; if `faulty`, it may fail. -/
def Answers (faulty : Prop) (drives : Drives) (a : MountCall) (r : a.Answer) (drives' : Drives) :
    Prop :=
  (r, drives') = a.run drives ∨ (faulty ∧ a.failure = some r ∧ drives' = drives)

end MountCall

end SsdCache
