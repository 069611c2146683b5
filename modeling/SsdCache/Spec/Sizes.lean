import SsdCache.Binary.Rounding
import SsdCache.Spec.ConfigFile

/-!
# Sizes

`parse_size_bytes` and `format_size_bytes` (`cache_eviction.cpp`): the sizes of the command
line, as text. A `double` is IEEE binary64, and an operation on doubles is the exact one,
rounded.
-/

namespace SsdCache

open Civil Binary

/-- IEEE binary64. -/
def double : Format := ⟨53, -1074, by decide⟩

/-- Overflow is to infinity. -/
def isFinite (value : ℚ) : Bool := value < 2 ^ 1024

/-! ## `std::wcstod` -/

def isHexDigit (c : Char) : Bool := c.isDigit ∨ ('a' ≤ c ∧ c ≤ 'f') ∨ ('A' ≤ c ∧ c ≤ 'F')

def digitValue (c : Char) : ℕ :=
  if c.isDigit then c.toNat - 48
  else if 'a' ≤ c then c.toNat - 87
  else c.toNat - 55

def readDigits (base : ℕ) (digits : Text) : ℕ :=
  digits.foldl (fun n c => n * base + digitValue c) 0

def readSign : Text → Bool × Text
  | '-' :: s => (true, s)
  | '+' :: s => (false, s)
  | s => (false, s)

/-- Digits around a point: the number without the point, how many digits stand behind it,
and the rest. -/
def significand (isDigit : Char → Bool) (base : ℕ) (s : Text) : Option (ℕ × ℕ × Text) :=
  let whole := s.takeWhile isDigit
  match s.dropWhile isDigit with
  | '.' :: t =>
    let fraction := t.takeWhile isDigit
    if whole = [] ∧ fraction = [] then none
    else some (readDigits base (whole ++ fraction), fraction.length, t.dropWhile isDigit)
  | t => if whole = [] then none else some (readDigits base whole, 0, t)

/-- A mark without digits behind it is no exponent. -/
def readExponent (mark : Char) : Text → ℤ × Text
  | [] => (0, [])
  | c :: s =>
    let (negative, t) := readSign s
    let digits := t.takeWhile Char.isDigit
    if c.toLower ≠ mark ∨ digits = [] then (0, c :: s)
    else
      (if negative then -(readDigits 10 digits : ℤ) else readDigits 10 digits,
        t.dropWhile Char.isDigit)

def decimalNumber (s : Text) : Option (ℚ × Text) :=
  (significand Char.isDigit 10 s).map fun (n, places, t) =>
    let (e, u) := readExponent 'e' t
    (n * 10 ^ (e - places), u)

def hexNumber (s : Text) : Option (ℚ × Text) :=
  (significand isHexDigit 16 s).map fun (n, places, t) =>
    let (e, u) := readExponent 'p' t
    (n * 2 ^ (e - 4 * places), u)

/-- Of `0x` without hexadecimal digits the number is `0`. -/
def unsignedNumber (s : Text) : Option (ℚ × Text) :=
  match s with
  | '0' :: x :: t => if x.toLower = 'x' then hexNumber t <|> decimalNumber s else decimalNumber s
  | _ => decimalNumber s

/-- `std::wcstod`: the sign, the exact magnitude and the rest of the string. The texts of
infinity and of NaN count as no number: the caller refuses both. -/
def wcstod (ctype : CType) (value : WString) : Option (Bool × ℚ × WString) :=
  let s := value.dropWhile ctype.iswspace
  let (negative, t) := readSign (s.map fun u => Char.ofNat u.toNat)
  (unsignedNumber t).map fun (magnitude, rest) =>
    (negative, magnitude, s.drop (s.length - rest.length))

/-! ## `cache_eviction.cpp` -/

def unitMultiplier (suffix : WString) : Option UInt64 :=
  if suffix = [] ∨ suffix = wide "B" then some 1
  else if suffix = wide "K" ∨ suffix = wide "KB" then some 1024
  else if suffix = wide "M" ∨ suffix = wide "MB" then some (1024 * 1024)
  else if suffix = wide "G" ∨ suffix = wide "GB" then some (1024 * 1024 * 1024)
  else if suffix = wide "T" ∨ suffix = wide "TB" then some (1024 * 1024 * 1024 * 1024)
  else none

/-- The string that `wcstod` and `std::wstring` see ends at the first NUL. The negative zero
is not below zero. -/
def parseSizeBytes (ctype : CType) (text : WString) : Option UInt64 := do
  let (negative, magnitude, rest) ← wcstod ctype ((trim ctype text).takeWhile (· ≠ 0))
  let value := double.round magnitude
  if (negative ∧ value ≠ 0) ∨ ¬ isFinite value then none
  else
    let multiplier ← unitMultiplier ((trim ctype rest).map ctype.towupper)
    let bytes := double.round (value * double.round multiplier.toNat)
    if 18446744073709551616 ≤ bytes then none else some ⌊bytes⌋₊.toUInt64

def kUnits : List String := ["B", "KB", "MB", "GB", "TB"]

/-- The loop of `format_size_bytes`, with `left` units above `unit`. -/
def scaleValue : ℕ → ℚ → ℕ → ℚ × ℕ
  | 0, value, unit => (value, unit)
  | left + 1, value, unit =>
    if 1024 ≤ value then scaleValue left (double.round (value / 1024)) (unit + 1)
    else (value, unit)

/-- `printf "%.2f"` of a double that is not negative. -/
def printHundredths (value : ℚ) : Text :=
  let n := nearest (100 * value)
  padded 0 (n / 100) ++ '.' :: padded 2 (n % 100)

def formatSizeBytes (bytes : UInt64) : WString :=
  let (value, unit) := scaleValue (kUnits.length - 1) (double.round bytes.toNat) 0
  let number := if unit = 0 then padded 0 bytes.toNat else printHundredths value
  (number ++ ' ' :: (kUnits.getD unit "").toList).map fun c => c.toNat.toUInt16

end SsdCache
