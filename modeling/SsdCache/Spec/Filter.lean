import SsdCache.Text.Wildcard
import SsdCache.Spec.ConfigFile

/-!
# The filter

The ignore patterns of `config.cpp`. The matcher is the source's loop over indices into
pattern and value; it goes back to the latest `*` only.
-/

namespace SsdCache

/-- `L'*'` -/
def asterisk : UInt16 := 0x2A

/-- `L'?'` -/
def questionMark : UInt16 := 0x3F

/-- The variables of the matcher's loop; `starIndex` is `none` for `npos`. -/
structure WildcardState where
  patternIndex : ℕ
  valueIndex : ℕ
  starIndex : Option ℕ
  starMatchIndex : ℕ
  starIndex_lt : ∀ i ∈ starIndex, i < patternIndex
  starMatchIndex_le : starMatchIndex ≤ valueIndex

namespace WildcardState

def start : WildcardState := ⟨0, 0, none, 0, nofun, Nat.le_refl 0⟩

variable (st : WildcardState)

/-- Where the pattern goes on after the latest `*`. -/
def afterStar : ℕ := st.starIndex.elim 0 (· + 1)

theorem afterStar_le : st.afterStar ≤ st.patternIndex := by
  unfold afterStar
  cases hi : st.starIndex with
  | none => exact Nat.zero_le _
  | some i => exact st.starIndex_lt i hi

/-- The pattern's unit takes the value's. -/
def advance : WildcardState where
  patternIndex := st.patternIndex + 1
  valueIndex := st.valueIndex + 1
  starIndex := st.starIndex
  starMatchIndex := st.starMatchIndex
  starIndex_lt i hi := Nat.lt_succ_of_lt (st.starIndex_lt i hi)
  starMatchIndex_le := Nat.le_succ_of_le st.starMatchIndex_le

/-- A `*`, which takes nothing yet. -/
def atStar : WildcardState where
  patternIndex := st.patternIndex + 1
  valueIndex := st.valueIndex
  starIndex := some st.patternIndex
  starMatchIndex := st.valueIndex
  starIndex_lt := by simp
  starMatchIndex_le := Nat.le_refl _

/-- Back to the `*` at `starIndex`, which takes one unit more. -/
def backtrack (starIndex : ℕ) : WildcardState where
  patternIndex := starIndex + 1
  valueIndex := st.starMatchIndex + 1
  starIndex := some starIndex
  starMatchIndex := st.starMatchIndex + 1
  starIndex_lt := by simp
  starMatchIndex_le := Nat.le_refl _

end WildcardState

/-- The loop of `wildcard_match_ignore_case` on lowered texts: `none` is its `return false`,
and otherwise it ends at an index of the pattern. -/
def wildcardLoop (pattern value : WString) (st : WildcardState) : Option ℕ :=
  if hvalue : st.valueIndex < value.length then
    if hp : ∃ h : st.patternIndex < pattern.length,
        pattern[st.patternIndex] = questionMark ∨
          pattern[st.patternIndex] = value[st.valueIndex] then
      wildcardLoop pattern value st.advance
    else if hs : ∃ h : st.patternIndex < pattern.length, pattern[st.patternIndex] = asterisk then
      wildcardLoop pattern value st.atStar
    else
      match hi : st.starIndex with
      | some starIndex => wildcardLoop pattern value (st.backtrack starIndex)
      | none => none
  else some st.patternIndex
termination_by (pattern.length - st.afterStar, value.length - st.starMatchIndex,
  pattern.length - st.patternIndex)
decreasing_by
  -- a unit taken leaves less of the pattern
  · have := hp.1
    exact .right _ (.right _ (by simp only [WildcardState.advance]; omega))
  -- a `*` is right of the one before it
  · have := hs.1
    have := st.afterStar_le
    have hnext : st.atStar.afterStar = st.patternIndex + 1 := rfl
    exact .left _ _ (by omega)
  -- the same `*` takes more of the value
  · have := st.starMatchIndex_le
    have hsame : (st.backtrack starIndex).afterStar = st.afterStar := by
      simp only [WildcardState.afterStar, WildcardState.backtrack, hi]
    rw [hsame]
    exact .right _ (.left _ _ (by simp only [WildcardState.backtrack]; omega))

/-- The loop over the `*` that are left. -/
def skipStars (pattern : WString) (patternIndex : ℕ) : ℕ :=
  patternIndex + ((pattern.drop patternIndex).takeWhile (· = asterisk)).length

section Case

variable (ctype : CType)

def lowerCopy (value : WString) : WString := value.map ctype.towlower

def wildcardMatchIgnoreCase (pattern value : WString) : Bool :=
  let loweredPattern := lowerCopy ctype pattern
  let loweredValue := lowerCopy ctype value
  match wildcardLoop loweredPattern loweredValue .start with
  | none => false
  | some patternIndex => skipStars loweredPattern patternIndex = loweredPattern.length

/-- `find_last_of(L"\\/")` -/
def isPathSeparator (u : UInt16) : Bool := u = separator ∨ u = slash

def filenameFromPath (path : WString) : WString := path.rtakeWhile fun u => !isPathSeparator u

def valueMatchesAnyPattern (patterns : List WString) (value : WString) : Bool :=
  if value = [] then false
  else
    let filename := filenameFromPath value
    patterns.any fun pattern =>
      wildcardMatchIgnoreCase ctype pattern value || wildcardMatchIgnoreCase ctype pattern filename

def processMatchesIgnoredPatterns (config : AppConfig) (processPath : WString) : Bool :=
  valueMatchesAnyPattern ctype config.ignoredProcessPatterns processPath

def pathMatchesIgnoredPatterns (config : AppConfig) (relativePath : WString) : Bool :=
  valueMatchesAnyPattern ctype config.ignoredPathPatterns relativePath

/-! ## What a pattern means -/

/-- The token of a unit of a lowered pattern. -/
def wildcardToken (u : UInt16) : Text.Token UInt16 :=
  if u = asterisk then .run else if u = questionMark then .one else .lit u

/-- The value, every unit of it lowered, can be cut so that each `*` of the pattern lowered in
the same way takes any run, each `?` one unit and every other unit itself. -/
def WildcardMatches (pattern value : WString) : Prop :=
  Text.Covers ((pattern.map ctype.towlower).map wildcardToken) (value.map ctype.towlower)

end Case

/-- What is left of a path after its last separator, which is all of a path without one. -/
def IsFilename (path filename : WString) : Prop :=
  (∀ u ∈ filename, isPathSeparator u = false) ∧
    (path = filename ∨ ∃ folder, ∃ u, isPathSeparator u = true ∧ path = folder ++ u :: filename)

end SsdCache
