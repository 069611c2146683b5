import SsdCache.Atomic.Trace
import SsdCache.Spec.ConfigFile

/-!
# Saving the configuration

`save_config_file` (`config.cpp`) as a program over the file: it opens the file, which
truncates it, and puts line after line. Each value is converted when its line has been begun.
A write that fails has put a part of its bytes, and the stream, whose state nobody reads, puts
nothing more.
-/

namespace SsdCache

open Atomic

inductive SaveCall
  /-- `create_directories(config_path.parent_path())` -/
  | createDirectories
  /-- `std::ofstream output(config_path, std::ios::trunc)`, and whether it is good -/
  | openTrunc
  /-- `output <<`, and whether the stream is still good -/
  | put (bytes : Bytes)
  deriving DecidableEq

namespace SaveCall

abbrev Answer : SaveCall → Type
  | createDirectories => Unit
  | openTrunc | put _ => Bool

end SaveCall

/-- The file, and whether the stream has failed. -/
structure SaveWorld where
  file : Option Bytes
  failed : Bool := false
  deriving DecidableEq

/-- What a call does, and what it answers. -/
def SaveCall.Does (w : SaveWorld) : (a : SaveCall) → Except String a.Answer → SaveWorld → Prop
  | createDirectories, _, w' => w' = w
  | openTrunc, .ok opened, w' => w' = if opened then { file := some [] } else w
  | put bytes, .ok true, w' =>
    w.failed = false ∧ w' = { w with file := w.file.map (· ++ bytes) }
  | put bytes, .ok false, w' =>
    if w.failed then w' = w
    else ∃ n < bytes.length, w' = { file := w.file.map (· ++ bytes.take n), failed := true }
  | _, .error _, _ => False

def saveCalls : Sig where
  Act := SaveCall
  Resp := SaveCall.Answer

def saveExec (w : SaveWorld) (a : saveCalls.Act) (r : Except String (saveCalls.Resp a))
    (w' : SaveWorld) : Prop :=
  SaveCall.Does w a r w'

abbrev SaveTask (α : Type) : Type := Prog saveCalls String α

def save (a : SaveCall) : SaveTask a.Answer := Prog.perform (S := saveCalls) a

/-- `output << "key=" << value << "\n"`, with the conversion of the value. -/
def putLine (key : String) (value : Except String Bytes) : SaveTask Unit := do
  let _ ← save (.put (ascii key.toList ++ [equals]))
  match value with
  | .error error => .throw error
  | .ok bytes =>
    let _ ← save (.put bytes)
    let _ ← save (.put [lineFeed])
    return ()

def putLines : List (String × Except String Bytes) → SaveTask Unit
  | [] => return ()
  | (key, value) :: lines => do
    putLine key value
    putLines lines

/-- The lines with their conversions. -/
def configLines (config : AppConfig) : List (String × Except String Bytes) :=
  [("source_unc", encodeUtf8 config.sourceUnc),
    ("source_presentation_letter", narrowAscii [config.sourcePresentationLetter]),
    ("cache_letter", narrowAscii [config.cacheLetter]),
    ("sqlite_path", encodeUtf8 config.sqlitePath)] ++
  config.mode.toList.map (fun mode => ("mode", encodeUtf8 (appModeToWstring mode))) ++
  [("copy_delay_seconds", .ok (ascii (printInt 0 config.copyDelay))),
    ("compare_hash_before_overwrite",
      .ok (ascii (if config.compareHashBeforeOverwrite then ['1'] else ['0']))),
    ("min_free_space_mb", .ok (ascii (printInt 0 (config.minFreeBytes / mebibyte).toNat))),
    ("ignored_process_patterns", encodeUtf8 (joinPatterns config.ignoredProcessPatterns)),
    ("ignored_path_patterns", encodeUtf8 (joinPatterns config.ignoredPathPatterns))]

/-- `save_config_file`; `hasParent` is `config_path.has_parent_path()`. -/
def saveConfig (hasParent : Bool) (config : AppConfig) : SaveTask Unit := do
  if hasParent then save .createDirectories
  let opened : Bool ← save .openTrunc
  if !opened then .throw "failed to write config file"
  else putLines (configLines config)

end SsdCache
