import SsdCache.Atomic.Prog
import SsdCache.Spec.Engine
import SsdCache.Spec.PathMapper
import SsdCache.Spec.Utf

/-!
# The Windows copy engine

`win_file_copy.cpp`: the engine as a program over the calls it makes of the system
(`WinCall`), and what those calls do to files and open handles (`WinCall.Does`). A file that
is open without delete sharing is neither deleted nor renamed. What a source gives is not
ours: queries and reads of it have any answer. I/O and thread priorities and the pause between
chunks have no part in this, and are left out.
-/

namespace SsdCache

open Atomic

/-! ## The system -/

/-- An open file; `shared` if it was opened with `FILE_SHARE_DELETE`. -/
structure OpenFile where
  handle : ℕ
  path : WString
  shared : Bool
  deriving DecidableEq

/-- The files by their extended path, the open handles, and what the running hash has been
fed. -/
structure WinWorld where
  files : WString → Option Bytes
  handles : List OpenFile := []
  hashed : Bytes := []

namespace WinWorld

variable (w : WinWorld)

def setFile (path : WString) (content : Option Bytes) : WinWorld :=
  { w with files := fun p => if p = path then content else w.files p }

def addHandle (file : OpenFile) : WinWorld := { w with handles := file :: w.handles }

def dropHandle (h : ℕ) : WinWorld :=
  { w with handles := w.handles.filter fun file => file.handle ≠ h }

/-- The file is open without delete sharing. -/
def Locked (path : WString) : Prop := ∃ file ∈ w.handles, file.path = path ∧ file.shared = false

instance (path : WString) : Decidable (w.Locked path) :=
  inferInstanceAs (Decidable (∃ file ∈ _, _))

end WinWorld

/-- What `WriteFile` returns, the bytes written, and `GetLastError` after it. -/
structure WriteOutcome where
  succeeded : Bool
  written : ℕ
  lastError : UInt32
  deriving DecidableEq

inductive WinCall
  | now
  /-- the size of a file -/
  | getFileAttributesEx (path : WString)
  /-- `FormatMessageW`, empty if there is no text -/
  | formatMessage (error : UInt32)
  /-- `ensure_destination_directory` -/
  | ensureDirectory (path : WString)
  /-- `CreateFileW` of `open_existing_for_read` -/
  | openExisting (path : WString)
  /-- `CreateFileW` of the temp file: `CREATE_ALWAYS`, no sharing -/
  | createExclusive (path : WString)
  /-- `BCryptAlgorithm` and `BCryptHash` -/
  | createHash
  /-- `std::vector<std::byte> buffer` -/
  | allocateBuffer (size : UInt64)
  | loadCancelled
  | readFile (handle : ℕ) (size : UInt32)
  /-- `BCryptHash::update` -/
  | hashData (data : Bytes)
  | writeFile (handle : ℕ) (data : Bytes)
  /-- `BCryptFinishHash` -/
  | finishHash
  /-- `Handle::reset` and `~Handle`, which close a handle that is still open -/
  | closeHandle (handle : ℕ)
  /-- `MOVEFILE_REPLACE_EXISTING | MOVEFILE_WRITE_THROUGH` -/
  | moveFileEx (source target : WString)
  | deleteFile (path : WString)
  deriving DecidableEq

/-- An answer, or the code of `GetLastError`. -/
abbrev WinResult (α : Type) : Type := Except UInt32 α

namespace WinCall

abbrev Answer : WinCall → Type
  | now => ℤ
  | getFileAttributesEx _ => WinResult UInt64
  | formatMessage _ => WString
  | ensureDirectory _ | createHash | allocateBuffer _ | hashData _ | closeHandle _ => Unit
  | openExisting _ | createExclusive _ => WinResult ℕ
  | loadCancelled => Bool
  | readFile _ _ => WinResult Bytes
  | writeFile _ _ => WriteOutcome
  | finishHash => Bytes
  | moveFileEx _ _ | deleteFile _ => WinResult Unit

end WinCall

/-- `ERROR_FILE_NOT_FOUND` -/
def errorFileNotFound : UInt32 := 2

/-- `ERROR_PATH_NOT_FOUND` -/
def errorPathNotFound : UInt32 := 3

/-- `ERROR_SHARING_VIOLATION` -/
def errorSharingViolation : UInt32 := 32

/-- What a call does, and what it answers; `sha256` is what BCrypt computes. -/
def WinCall.Does (sha256 : Bytes → Bytes) (w : WinWorld) :
    (a : WinCall) → Except String a.Answer → WinWorld → Prop
  | now, .ok _, w' | getFileAttributesEx _, .ok _, w' | formatMessage _, .ok _, w'
  | loadCancelled, .ok _, w' | ensureDirectory _, .ok _, w' | allocateBuffer _, .ok _, w' => w' = w
  | openExisting path, .ok (.ok h), w' =>
    (w.files path).isSome ∧ ¬ w.Locked path ∧ (∀ file ∈ w.handles, file.handle ≠ h) ∧
      w' = w.addHandle ⟨h, path, true⟩
  | createExclusive path, .ok (.ok h), w' =>
    (∀ file ∈ w.handles, file.path ≠ path ∧ file.handle ≠ h) ∧
      w' = (w.setFile path (some [])).addHandle ⟨h, path, false⟩
  | createHash, .ok _, w' => w' = { w with hashed := [] }
  | readFile _ size, .ok (.ok data), w' => data.length ≤ size.toNat ∧ w' = w
  | hashData data, .ok _, w' => w' = { w with hashed := w.hashed ++ data }
  | writeFile h data, .ok outcome, w' =>
    -- a write that fails may have put a part of the data
    ∃ file ∈ w.handles, file.handle = h ∧ ∃ n ≤ data.length,
      (outcome.succeeded = true → outcome.written = n) ∧
      w' = w.setFile file.path ((w.files file.path).map (· ++ data.take n))
  | finishHash, .ok digest, w' => digest = sha256 w.hashed ∧ w' = w
  | closeHandle h, .ok _, w' => w' = w.dropHandle h
  | moveFileEx source target, .ok (.ok _), w' =>
    (w.files source).isSome ∧ ¬ w.Locked source ∧ ¬ w.Locked target ∧
      w' = (w.setFile target (w.files source)).setFile source none
  | deleteFile path, .ok r, w' =>
    if w.Locked path then r = .error errorSharingViolation ∧ w' = w
    else if w.files path = none then r = .error errorFileNotFound ∧ w' = w
    else r = .ok () ∧ w' = w.setFile path none
  | openExisting _, .ok (.error _), w' | createExclusive _, .ok (.error _), w'
  | readFile _ _, .ok (.error _), w' | moveFileEx _ _, .ok (.error _), w' => w' = w
  | ensureDirectory _, .error _, w' | createHash, .error _, w' | allocateBuffer _, .error _, w'
  | hashData _, .error _, w' | finishHash, .error _, w' => w' = w
  | _, .error _, _ => False

def winCalls : Sig where
  Act := WinCall
  Resp := WinCall.Answer

def winExec (sha256 : Bytes → Bytes) (w : WinWorld) (a : winCalls.Act)
    (r : Except String (winCalls.Resp a)) (w' : WinWorld) : Prop :=
  WinCall.Does sha256 w a r w'

/-- A volume that finds files by what `name` makes of their path. -/
def namedExec (name : WString → WString) (sha256 : Bytes → Bytes) (w : WinWorld) :
    (a : winCalls.Act) → Except String (winCalls.Resp a) → WinWorld → Prop
  | .openExisting path, r, w' => WinCall.Does sha256 w (.openExisting (name path)) r w'
  | .createExclusive path, r, w' => WinCall.Does sha256 w (.createExclusive (name path)) r w'
  | .moveFileEx source target, r, w' =>
    WinCall.Does sha256 w (.moveFileEx (name source) (name target)) r w'
  | .deleteFile path, r, w' => WinCall.Does sha256 w (.deleteFile (name path)) r w'
  | a, r, w' => WinCall.Does sha256 w a r w'

/-- The engine's code: it throws `std::exception`s, of which only `what()` is read. -/
abbrev WinTask (α : Type) : Type := Prog winCalls String α

def win (a : WinCall) : WinTask a.Answer := Prog.perform (S := winCalls) a

/-! ## Paths, errors and digests -/

/-- `L"\\\\?\\"` -/
def extendedPrefix : WString := wide "\\\\?\\"

def extendedPath (path : WString) : WString :=
  if extendedPrefix.isPrefixOf path then path
  else if [separator, separator].isPrefixOf path then wide "\\\\?\\UNC\\" ++ path.drop 2
  else extendedPrefix ++ path

/-- `L".ssd-cache.tmp"` -/
def tempSuffix : WString := wide ".ssd-cache.tmp"

def isMissingError (error : UInt32) : Bool :=
  error = errorFileNotFound ∨ error = errorPathNotFound

/-- What `describe_error` cuts off the end of a message: `\r`, `\n`, `.` and blanks. -/
def isMessageTail (u : UInt16) : Bool := u = 0x0D ∨ u = 0x0A ∨ u = 0x2E ∨ u = 0x20

def describeError (error : UInt32) : WinTask String := do
  let text : WString ← win (.formatMessage error)
  let message := text.rdropWhile isMessageTail
  if message = [] then return toString error.toNat
  else
    match wideToUtf8 message with
    | .ok utf8 => return toString error.toNat ++ " (" ++ utf8 ++ ")"
    | .error e => .throw e

/-- `kHex` -/
def hexDigit (n : ℕ) : Char :=
  ['0', '1', '2', '3', '4', '5', '6', '7', '8', '9', 'a', 'b', 'c', 'd', 'e', 'f'].getD n '0'

/-- The loop of `finish_hex` over the digest. -/
def hexText (digest : Bytes) : String :=
  String.ofList (digest.flatMap fun byte => [hexDigit (byte.toNat / 16), hexDigit (byte.toNat % 16)])

def finishHex : WinTask String := do
  let digest : Bytes ← win .finishHash
  return hexText digest

/-! ## Copying -/

structure WinFileCopyEngine where
  chunkSize : UInt64 := 1024 * 1024

namespace WinFileCopyEngine

variable (engine : WinFileCopyEngine)

/-- `static_cast<DWORD>(buffer.size())` -/
def readSize : UInt32 := engine.chunkSize.toUInt32

/-- The loop of `hash_existing_file`; `none` after `fuel` chunks that were not the last. -/
def hashLoop (source : ℕ) : ℕ → WinTask (Option String)
  | 0 => return none
  | fuel + 1 => do
    let read : WinResult Bytes ← win (.readFile source engine.readSize)
    match read with
    | .error _ => .throw "failed to read file for hashing"
    | .ok [] => do
      let hash ← finishHex
      return some hash
    | .ok chunk => do
      win (.hashData chunk)
      hashLoop source fuel

def hashExistingFile (fuel : ℕ) (path : WString) : WinTask (Option String) := do
  let opened : WinResult ℕ ← win (.openExisting (extendedPath path))
  match opened with
  | .error _ => .throw "failed to open file for hashing"
  | .ok source =>
    Prog.ensuring (do
        win .createHash
        win (.allocateBuffer engine.chunkSize)
        hashLoop engine source fuel)
      (win (.closeHandle source))

/-- How the copy loop was left: it has not yet been, at the end of the source, or by a
`return`. -/
inductive LoopExit
  | running
  | endOfFile
  | returned (result : CopyResult)
  deriving DecidableEq

/-- What a failing call returns: the result with the action and the description of the error. -/
def failWith (result : CopyResult) (action : CopyAction) (what : String) (error : UInt32) :
    WinTask CopyResult := do
  let description ← describeError error
  return { result with action := action, errorMessage := what ++ description }

/-- An error of the source: that it is missing is an outcome of its own. -/
def failSource (result : CopyResult) (missing failed : String) (error : UInt32) :
    WinTask CopyResult :=
  if isMissingError error then failWith result .sourceMissing missing error
  else failWith result .failed failed error

/-- The copy loop of `copy_and_hash`; it is running after `fuel` chunks that were not the
last. -/
def copyLoop (source destination : ℕ) (tempPath : WString) (result : CopyResult) :
    ℕ → WinTask LoopExit
  | 0 => return .running
  | fuel + 1 => do
    let cancelled : Bool ← win .loadCancelled
    if cancelled then
      win (.closeHandle destination)
      let _ ← win (.deleteFile (extendedPath tempPath))
      return .returned { result with action := .cancelled, errorMessage := "copy cancelled" }
    else
      let read : WinResult Bytes ← win (.readFile source engine.readSize)
      match read with
      | .error readError =>
        let _ ← win (.deleteFile (extendedPath tempPath))
        let failed ← failSource result "source file disappeared during copy: error "
          "failed to read source: error " readError
        return .returned failed
      | .ok [] => return .endOfFile
      | .ok chunk =>
        win (.hashData chunk)
        let outcome : WriteOutcome ← win (.writeFile destination chunk)
        if !outcome.succeeded || outcome.written ≠ chunk.length then
          let _ ← win (.deleteFile (extendedPath tempPath))
          let failed ←
            failWith result .failed "failed to write cache destination: error " outcome.lastError
          return .returned failed
        else copyLoop source destination tempPath result fuel

/-- `catch (const std::exception& error)`, with the result as it is by then. -/
def caught (result : CopyResult) (error : String) : WinTask (Option CopyResult) :=
  return some { result with action := .failed, errorMessage := error }

/-- The rename, after both files have been closed. -/
def moveToCache (source destination : ℕ) (tempPath cacheAbs : WString) (result : CopyResult) :
    WinTask (Option CopyResult) := do
  win (.closeHandle source)
  win (.closeHandle destination)
  let moved : WinResult Unit ← win (.moveFileEx (extendedPath tempPath) (extendedPath cacheAbs))
  match moved with
  | .ok () => return some { result with action := .copied }
  | .error moveError =>
    let _ ← win (.deleteFile (extendedPath tempPath))
    Prog.tryCatch (some <$> failWith result .failed "failed to replace cache file: error " moveError)
      (caught result)

/-- From the end of the copy loop on. -/
def publish (source destination : ℕ) (tempPath cacheAbs : WString) (result : CopyResult) :
    WinTask (Option CopyResult) := do
  let hash ← finishHex
  let completedAt : ℤ ← win .now
  moveToCache source destination tempPath cacheAbs { result with
    hashHex := hash, cachedSizeBytes := result.sourceSizeBytes, completedAt := completedAt }

/-- From the creation of the temp file on, with both files open. -/
def copyInto (fuel : ℕ) (source destination : ℕ) (tempPath cacheAbs : WString)
    (result : CopyResult) : WinTask (Option CopyResult) := do
  win .createHash
  win (.allocateBuffer engine.chunkSize)
  let exit ← copyLoop engine source destination tempPath result fuel
  match exit with
  | .running => return none
  | .returned result => return some result
  | .endOfFile => publish source destination tempPath cacheAbs result

/-- From the opened source on. -/
def copyFrom (fuel : ℕ) (source : ℕ) (cacheAbs : WString) (result : CopyResult) :
    WinTask (Option CopyResult) := do
  let tempPath := cacheAbs ++ tempSuffix
  let created : WinResult ℕ ← win (.createExclusive (extendedPath tempPath))
  match created with
  | .error openError =>
    some <$> failWith result .failed "failed to open cache destination: error " openError
  | .ok destination =>
    (copyInto engine fuel source destination tempPath cacheAbs result).ensuring
      (win (.closeHandle destination))

/-- The `try` block of `copy_and_hash`, with its handler. -/
def replaceFile (fuel : ℕ) (sourceAbs cacheAbs : WString) (result : CopyResult) :
    WinTask (Option CopyResult) :=
  Prog.tryCatch (do
      win (.ensureDirectory cacheAbs)
      let opened : WinResult ℕ ← win (.openExisting (extendedPath sourceAbs))
      match opened with
      | .error openError =>
        some <$> failSource result "source file disappeared before copy: error "
          "failed to open source: error " openError
      | .ok source =>
        (copyFrom engine fuel source cacheAbs result).ensuring (win (.closeHandle source)))
    (caught result)

/-- The hashes of source and cached file decide. -/
def compareHashes (fuel : ℕ) (sourceAbs cacheAbs : WString) (result : CopyResult) :
    WinTask (Option CopyResult) := do
  let sourceHash ← hashExistingFile engine fuel sourceAbs
  match sourceHash with
  | none => return none
  | some sourceHash =>
    let cacheHash ← hashExistingFile engine fuel cacheAbs
    match cacheHash with
    | none => return none
    | some cacheHash =>
      if sourceHash = cacheHash then
        return some { result with action := .skippedHashMatch, hashHex := sourceHash }
      else replaceFile engine fuel sourceAbs cacheAbs result

/-- `copy_and_hash`; `none` if one of its loops is running after `fuel` chunks. -/
def copyAndHash (fuel : ℕ) (sourceAbs cacheAbs : WString) (compareHashBeforeOverwrite : Bool) :
    WinTask (Option CopyResult) := do
  let started : ℤ ← win .now
  let result : CopyResult := { completedAt := started }
  let sourceSize : WinResult UInt64 ← win (.getFileAttributesEx (extendedPath sourceAbs))
  match sourceSize with
  | .error error =>
    some <$> failSource result "source file does not exist: error "
      "failed to inspect source: error " error
  | .ok sourceSize =>
    let result := { result with sourceSizeBytes := sourceSize }
    let cacheSize : WinResult UInt64 ← win (.getFileAttributesEx (extendedPath cacheAbs))
    match cacheSize with
    | .error _ => replaceFile engine fuel sourceAbs cacheAbs result
    | .ok cacheSize =>
      let result := { result with cachedSizeBytes := cacheSize }
      if cacheSize = sourceSize ∧ compareHashBeforeOverwrite = false then
        return some { result with action := .skippedSameSize }
      else if cacheSize = sourceSize ∧ compareHashBeforeOverwrite = true then
        compareHashes engine fuel sourceAbs cacheAbs result
      else replaceFile engine fuel sourceAbs cacheAbs result

/-- `remove_cached_file` -/
def removeCachedFile (cacheAbs : WString) : WinTask RemoveResult := do
  let tempPath := cacheAbs ++ tempSuffix
  let _ ← win (.deleteFile (extendedPath tempPath))
  let deleted : WinResult Unit ← win (.deleteFile (extendedPath cacheAbs))
  match deleted with
  | .ok () => return { removed := true }
  | .error deleteError =>
    if isMissingError deleteError then return { missing := true }
    else
      let description ← describeError deleteError
      return { errorMessage := "failed to delete cache file: error " ++ description }

end WinFileCopyEngine

end SsdCache
