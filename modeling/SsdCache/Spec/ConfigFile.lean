import SsdCache.Text.Lines
import SsdCache.Spec.Config
import SsdCache.Spec.Time
import SsdCache.Spec.Utf

/-!
# The configuration file

`config.cpp`: the file is lines `key=value` in UTF-8. `load_config_file` reads what it knows
of them over the defaults of `AppConfig`; `save_config_file` writes every setting. The wide
character classes are the C library's and come with what the loader relies on.
-/

namespace SsdCache

open Civil

/-- `<cwctype>`: white space ends lines and has no case, and no graphic character of ASCII and
no half of a surrogate pair is white space. -/
structure CType where
  iswspace : UInt16 → Bool
  towupper : UInt16 → UInt16
  towlower : UInt16 → UInt16
  iswspace_lineFeed : iswspace 0x0A = true
  iswspace_graphic : ∀ u, 0x21 ≤ u → u ≤ 0x7E → iswspace u = false
  iswspace_surrogate : ∀ u, 0xD800 ≤ u → u < 0xE000 → iswspace u = false
  iswspace_towupper : ∀ u, iswspace (towupper u) = iswspace u
  towupper_idem : ∀ u, towupper (towupper u) = towupper u
  towupper_upper : ∀ u, 0x41 ≤ u → u ≤ 0x5A → towupper u = u
  towlower_lower : ∀ u, 0x61 ≤ u → u ≤ 0x7A → towlower u = u

/-- The classes of the "C" locale. -/
def asciiCType : CType where
  iswspace u := u = 0x20 ∨ (0x09 ≤ u ∧ u ≤ 0x0D)
  towupper u := if 0x61 ≤ u ∧ u ≤ 0x7A then u - 0x20 else u
  towlower u := if 0x41 ≤ u ∧ u ≤ 0x5A then u + 0x20 else u
  iswspace_lineFeed := by decide
  iswspace_graphic u := by grind
  iswspace_surrogate u := by grind
  iswspace_towupper u := by grind
  towupper_idem u := by grind
  towupper_upper u := by grind
  towlower_lower u := by grind

/-- `'\n'` -/
def lineFeed : UInt8 := 0x0A

/-- `'#'` -/
def hash : UInt8 := 0x23

/-- `'='` -/
def equals : UInt8 := 0x3D

/-- `L','` -/
def comma : UInt16 := 0x2C

/-- A narrow string literal. -/
def ascii (s : Text) : Bytes := s.map fun c => c.toNat.toUInt8

section Load

variable (ctype : CType)

def trim (value : WString) : WString := Text.trim ctype.iswspace value

/-- The halves of a line, if it is no comment and has a `=`. -/
def keyValue (line : Bytes) : Option (Bytes × Bytes) :=
  if line = [] ∨ line.head? = some hash then none else Text.splitFirst equals line

def readPair (pair : Bytes × Bytes) : Except String (WString × WString) := do
  return (trim ctype (← decodeUtf8 pair.1), trim ctype (← decodeUtf8 pair.2))

/-- Of a file that cannot be opened nothing is read. `getline` cuts at every line feed (an
empty line after the last is as good as none), and the map keeps the first value of a key. -/
def readKeyValues : Option Bytes → Except String (List (WString × WString))
  | none => .ok []
  | some bytes => ((bytes.splitOn lineFeed).filterMap keyValue).mapM (readPair ctype)

def readLetter (value : Option WString) (fallback : Letter) : Letter :=
  match value with
  | some (u :: _) => ctype.towupper u
  | _ => fallback

def isDelimiter (u : UInt16) : Bool := u = comma ∨ u = semicolon

def splitPatterns (value : WString) : List WString :=
  ((value.splitOnP isDelimiter).map (trim ctype)).filter (· ≠ [])

def appModeFromWstring (value : WString) : Except String AppMode :=
  let lowered := value.map ctype.towlower
  if lowered = wide "disabled" then .ok .disabled
  else if lowered = wide "monitor" then .ok .monitor
  else if lowered = wide "serve" then .ok .serve
  else .error "unknown app mode string"

def wcsDigits : Text → Option ℕ
  | [] => none
  | c :: s => if c.isDigit then some (scanDigits 0 (c :: s)).1 else none

/-- `std::wcstoll` and `std::wcstoull` in base 10, up to the range check: white space, a sign,
and at least one digit. -/
def wcsInteger (value : WString) : Option ℤ :=
  match (value.dropWhile ctype.iswspace).map fun u => Char.ofNat u.toNat with
  | '-' :: s => (wcsDigits s).map fun n : ℕ => -(n : ℤ)
  | '+' :: s => (wcsDigits s).map fun n : ℕ => (n : ℤ)
  | s => (wcsDigits s).map fun n : ℕ => (n : ℤ)

/-- `std::stoll` -/
def stoll (value : WString) : Except String ℤ :=
  match wcsInteger ctype value with
  | none => .error "invalid stoll argument"
  | some n =>
    if -9223372036854775808 ≤ n ∧ n ≤ 9223372036854775807 then .ok n
    else .error "stoll argument out of range"

/-- `std::stoull`: a number with a minus sign is negated in 64 bits. -/
def stoull (value : WString) : Except String UInt64 :=
  match wcsInteger ctype value with
  | none => .error "invalid stoull argument"
  | some n =>
    if n.natAbs ≤ 18446744073709551615 then .ok (UInt64.ofInt n)
    else .error "stoull argument out of range"

def readMode : Option WString → Except String (Option AppMode)
  | none | some [] => .ok none
  | some value => some <$> appModeFromWstring ctype value

def readCopyDelay (value : Option WString) (fallback : ℤ) : Except String ℤ :=
  match value with
  | none => .ok fallback
  | some value => stoll ctype value

/-- `1024ULL * 1024ULL` -/
def mebibyte : UInt64 := 1024 * 1024

def readMinFree (value : Option WString) (fallback : UInt64) : Except String UInt64 :=
  match value with
  | none | some [] => .ok fallback
  | some value => (· * mebibyte) <$> stoull ctype value

def readPatterns (value : Option WString) (fallback : List WString) : List WString :=
  match value with
  | none => fallback
  | some value => splitPatterns ctype value

/-- `load_config_file`, on the values that the file gives. -/
def configOf (values : List (WString × WString)) : Except String AppConfig := do
  let find (key : String) : Option WString := values.lookup (wide key)
  let config : AppConfig := {}
  let mode ← readMode ctype (find "mode")
  let copyDelay ← readCopyDelay ctype (find "copy_delay_seconds") config.copyDelay
  let minFreeBytes ← readMinFree ctype (find "min_free_space_mb") config.minFreeBytes
  return {
    sourceUnc := (find "source_unc").getD config.sourceUnc
    sourcePresentationLetter := readLetter ctype (find "source_presentation_letter") 0x4E
    cacheLetter := readLetter ctype (find "cache_letter") 0x4B
    sqlitePath := (find "sqlite_path").getD config.sqlitePath
    mode := mode
    copyDelay := copyDelay
    compareHashBeforeOverwrite :=
      match find "compare_hash_before_overwrite" with
      | none => config.compareHashBeforeOverwrite
      | some value => value = wide "1" ∨ value = wide "true"
    minFreeBytes := minFreeBytes
    ignoredProcessPatterns :=
      readPatterns ctype (find "ignored_process_patterns") config.ignoredProcessPatterns
    ignoredPathPatterns :=
      readPatterns ctype (find "ignored_path_patterns") config.ignoredPathPatterns }

/-- The file of `none` cannot be opened. -/
def loadConfigFile (file : Option Bytes) : Except String AppConfig := do
  configOf ctype (← readKeyValues ctype file)

end Load

/-! ## Saving -/

/-- The loop of `join_patterns`, on what has been joined so far. -/
def joinFrom (result : WString) : List WString → WString
  | [] => result
  | pattern :: patterns =>
    joinFrom ((if result = [] then result else result ++ [semicolon]) ++ pattern) patterns

def joinPatterns (patterns : List WString) : WString := joinFrom [] patterns

def appModeToWstring : AppMode → WString
  | .disabled => wide "disabled"
  | .monitor => wide "monitor"
  | .serve => wide "serve"

/-- One line of the file. -/
def configLine (key : String) (value : Bytes) : Bytes :=
  ascii key.toList ++ equals :: value ++ [lineFeed]

/-- What `save_config_file` writes to the file it has opened, or the exception of the first
conversion that fails. -/
def saveConfigFile (config : AppConfig) : Except String Bytes := do
  let sourceUnc ← encodeUtf8 config.sourceUnc
  let sourcePresentationLetter ← narrowAscii [config.sourcePresentationLetter]
  let cacheLetter ← narrowAscii [config.cacheLetter]
  let sqlitePath ← encodeUtf8 config.sqlitePath
  let mode ← config.mode.mapM fun mode => encodeUtf8 (appModeToWstring mode)
  let processPatterns ← encodeUtf8 (joinPatterns config.ignoredProcessPatterns)
  let pathPatterns ← encodeUtf8 (joinPatterns config.ignoredPathPatterns)
  return configLine "source_unc" sourceUnc ++
    (configLine "source_presentation_letter" sourcePresentationLetter ++
    (configLine "cache_letter" cacheLetter ++
    (configLine "sqlite_path" sqlitePath ++
    ((mode.map (configLine "mode")).getD [] ++
    (configLine "copy_delay_seconds" (ascii (printInt 0 config.copyDelay)) ++
    (configLine "compare_hash_before_overwrite"
      (ascii (if config.compareHashBeforeOverwrite then ['1'] else ['0'])) ++
    (configLine "min_free_space_mb"
      (ascii (printInt 0 (config.minFreeBytes / mebibyte).toNat)) ++
    (configLine "ignored_process_patterns" processPatterns ++
    configLine "ignored_path_patterns" pathPatterns))))))))

end SsdCache
