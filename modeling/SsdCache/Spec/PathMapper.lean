import SsdCache.Text.Fields
import SsdCache.Spec.AccessEvent

/-!
# The path mapper

`path_mapper.cpp`: UNC and remote-device paths are cut into components and read as a
source root and a path below it. `towlower` is the C library's and comes with what the
mapper relies on.
-/

namespace SsdCache

/-- A wide string literal. -/
def wide (s : String) : WString := s.toList.map fun c => c.toNat.toUInt16

/-- `L'\\'` -/
def separator : UInt16 := 0x5C

/-- `L'/'` -/
def slash : UInt16 := 0x2F

/-- `L';'` -/
def semicolon : UInt16 := 0x3B

/-- `std::towlower`: it maps letters to letters, and a lower-case letter to itself. -/
structure CaseFold where
  towlower : UInt16 → UInt16
  towlower_idem : ∀ u, towlower (towlower u) = towlower u
  towlower_separator : ∀ u, towlower u = separator ↔ u = separator
  towlower_semicolon : ∀ u, towlower u = semicolon ↔ u = semicolon

/-- `towlower` of the "C" locale. -/
def asciiLower : CaseFold where
  towlower u := if 0x41 ≤ u ∧ u ≤ 0x5A then u + 0x20 else u
  towlower_idem u := by grind
  towlower_separator u := by unfold separator; grind
  towlower_semicolon u := by unfold semicolon; grind

/-- A path split into its source root and the portion relative to that root. -/
structure PathIdentity where
  sourceRootId : WString
  relativePath : WString
  deriving DecidableEq, Repr

section Case

variable (fold : CaseFold)

def equalsIgnoreCase (left right : WString) : Bool :=
  left.length = right.length &&
    (left.zip right).all fun pair => fold.towlower pair.1 = fold.towlower pair.2

def startsWithIgnoreCase (value pre : WString) : Bool :=
  if value.length < pre.length then false
  else equalsIgnoreCase fold (value.take pre.length) pre

def lowerRoot (value : WString) : WString := value.map fold.towlower

end Case

/-! ## Components -/

def normalizeSeparators (path : WString) : WString :=
  path.map fun u => if u = slash then separator else u

def trimLeadingSeparators (path : WString) : WString :=
  (normalizeSeparators path).dropWhile (· = separator)

/-- The loop of `split_path_components`, on what is left from `start` on. -/
def splitFrom (rest : WString) : List WString :=
  match rest with
  | [] => []
  | u :: us =>
    let atStart := (u :: us).dropWhile (· = separator)
    let component := atStart.takeWhile (· ≠ separator)
    let atEnd := atStart.dropWhile (· ≠ separator)
    if component = [] then splitFrom atEnd else component :: splitFrom atEnd
termination_by rest.length
decreasing_by all_goals exact Text.length_scan_lt u us

def splitPathComponents (path : WString) : List WString := splitFrom (normalizeSeparators path)

def joinRootRelative (root relativePath : WString) : WString :=
  let result := (normalizeSeparators root).rdropWhile (· = separator)
  let relative := trimLeadingSeparators relativePath
  if relative = [] then result else result ++ separator :: relative

/-! ## Parsing -/

/-- The root `\\server\share`, as the parsers append it. -/
def uncRoot (server share : WString) : WString :=
  [separator, separator] ++ server ++ separator :: share

/-- The loop that appends the components of the relative path. -/
def appendComponents (relative : WString) : List WString → WString
  | [] => relative
  | component :: components =>
    appendComponents ((if relative = [] then relative else relative ++ [separator]) ++ component)
      components

def parseUncPath (fold : CaseFold) (path : WString) : Option PathIdentity :=
  let normalized := normalizeSeparators path
  if !startsWithIgnoreCase fold normalized [separator, separator] then none
  else
    let components := splitPathComponents normalized
    if components.length < 2 then none
    else
      let root := uncRoot (components.getD 0 []) (components.getD 1 [])
      let relative := appendComponents [] (components.drop 2)
      some ⟨lowerRoot fold root, relative⟩

/-- `starts_with(L";")` -/
def startsSession (component : WString) : Bool := [semicolon].isPrefixOf component

def parseWindowsRemoteDevicePath (fold : CaseFold) (path : WString) : Option PathIdentity :=
  let components := splitPathComponents path
  if components.length < 4 then none
  else if !equalsIgnoreCase fold (components.getD 0 []) (wide "Device") then none
  else if !equalsIgnoreCase fold (components.getD 1 []) (wide "LanManRedirector") &&
      !equalsIgnoreCase fold (components.getD 1 []) (wide "Mup") then none
  else
    let serverIndex := if startsSession (components.getD 2 []) then 3 else 2
    if components.length ≤ serverIndex + 1 then none
    else
      let root := uncRoot (components.getD serverIndex []) (components.getD (serverIndex + 1) [])
      let relative := appendComponents [] (components.drop (serverIndex + 2))
      some ⟨lowerRoot fold root, relative⟩

def mapObservedSourcePath (fold : CaseFold) (sourceUnc observedPath : WString) :
    Option PathIdentity :=
  match parseUncPath fold sourceUnc with
  | none => none
  | some sourceIdentity =>
    match (parseUncPath fold observedPath).or (parseWindowsRemoteDevicePath fold observedPath) with
    | none => none
    | some observed =>
      if !equalsIgnoreCase fold observed.sourceRootId sourceIdentity.sourceRootId then none
      else some observed

end SsdCache
