import SsdCache.Civil.Calendar
import SsdCache.Civil.Decimal

/-!
# Time points and their text

`system_clock` counts ticks of 100 ns in 64 bits, as it does on Windows: a time point
is the number of ticks since 1970-01-01T00:00:00Z, in `ℤ`. The index keeps time points
as whole-second UTC text, `YYYY-MM-DDThh:mm:ssZ` (`formatUtc`), and reads them back
with `sscanf` (`parseUtc`).

`gmtime` and `timegm` are the proleptic Gregorian calendar of every year. What the index
and all that is built on it say of times up to year 9999 assumes that calendar. The
runtime on Windows refuses years outside 1970 to 3000 (`gmtimeS`, `mkgmtime`); in these
years `windowsFormatUtc` and `windowsParseUtc` are the same as those of the calendar, and
the difference counts for delays only, which can lead further.
-/

namespace SsdCache

open Civil

/-- A timestamp as the index stores it. -/
abbrev Text : Type := List Char

/-- Ticks of `system_clock` in a second. -/
def ticksPerSecond : ℤ := 10000000

/-- `time_point_cast<seconds>`: whole seconds, truncated toward zero. -/
def castSeconds (t : ℤ) : ℤ := t.tdiv ticksPerSecond

def floorToSeconds (t : ℤ) : ℤ := castSeconds t * ticksPerSecond

/-- `t + std::chrono::seconds(s)`, in 64-bit ticks. -/
def addSeconds (t : ℤ) (s : ℤ) : ℤ :=
  Int.bmod (t + s * ticksPerSecond) 18446744073709551616

/-- `std::tm`. -/
structure Tm where
  tmYear : ℤ
  tmMon : ℤ
  tmMday : ℤ
  tmHour : ℤ
  tmMin : ℤ
  tmSec : ℤ
  deriving DecidableEq, Repr

/-- Seconds since 1970 as a broken-down UTC time. -/
def gmtime (raw : ℤ) : Tm :=
  let date := civilFromDays (raw / 86400)
  let sod := raw % 86400
  ⟨date.year - 1900, date.month - 1, date.day, sod / 3600, sod % 3600 / 60, sod % 60⟩

/-- Seconds since 1970 of a broken-down UTC time, out-of-range fields carried over. -/
def timegm (value : Tm) : ℤ :=
  ((daysFromCivil (value.tmYear + 1900) (value.tmMon + 1) value.tmMday * 24 + value.tmHour) * 60 +
    value.tmMin) * 60 + value.tmSec

/-- `printf "%0wd"`. -/
def printInt (w : ℕ) (n : ℤ) : Text :=
  if n < 0 then '-' :: padded (w - 1) n.natAbs else padded w n.natAbs

/-- The format of `format_utc`. -/
def printUtc (utc : Tm) : Text :=
  printInt 4 (utc.tmYear + 1900) ++ '-' :: (printInt 2 (utc.tmMon + 1) ++ '-' ::
    (printInt 2 utc.tmMday ++ 'T' :: (printInt 2 utc.tmHour ++ ':' ::
      (printInt 2 utc.tmMin ++ ':' :: (printInt 2 utc.tmSec ++ ['Z'])))))

def formatUtc (timePoint : ℤ) : Text := printUtc (gmtime (castSeconds timePoint))

/-- `scanf "%d"`: optional white space and sign, then at least one digit. -/
def scanInt (s : Text) : Option (ℤ × Text) :=
  let s := s.dropWhile fun c => c = ' ' ∨ ('\t' ≤ c ∧ c ≤ '\r')
  let digits (s : Text) : Option (ℕ × Text) :=
    match s with
    | c :: _ => if c.isDigit then some (scanDigits 0 s) else none
    | [] => none
  match s with
  | '-' :: s => (digits s).map fun (n, rest) => (-(n : ℤ), rest)
  | '+' :: s => (digits s).map fun (n, rest) => ((n : ℤ), rest)
  | s => (digits s).map fun (n, rest) => ((n : ℤ), rest)

/-- A literal character of a `scanf` format. -/
def scanChar (c : Char) : Text → Option Text
  | [] => none
  | d :: s => if c = d then some s else none

/-- The six fields of the format; the final `Z` is not needed for six conversions. -/
def scanUtc (value : Text) : Option Tm := do
  let (year, s) ← scanInt value
  let (month, s) ← scanInt (← scanChar '-' s)
  let (day, s) ← scanInt (← scanChar '-' s)
  let (hour, s) ← scanInt (← scanChar 'T' s)
  let (minute, s) ← scanInt (← scanChar ':' s)
  let (second, _) ← scanInt (← scanChar ':' s)
  return ⟨year - 1900, month - 1, day, hour, minute, second⟩

/-- What `parse_utc` makes of the answer of `utc_timegm`. -/
def fromTimeT (raw : ℤ) : Option ℤ :=
  -- `(time_t)-1` is the failure value, so 23:59:59 on 1969-12-31 does not parse
  if raw = -1 then none else some (raw * ticksPerSecond)

def parseUtc (value : Text) : Option ℤ := (scanUtc value).bind fun utc => fromTimeT (timegm utc)

/-- The first tick of year 10000. -/
def year10000 : ℤ := 253402300800 * ticksPerSecond

/-- Between 1970 and year 9999. -/
def InRange (t : ℤ) : Prop := 0 ≤ t ∧ t < year10000

instance (t : ℤ) : Decidable (InRange t) := inferInstanceAs (Decidable (_ ∧ _))

/-! ## The runtime on Windows -/

/-- `time_t` of the first second of year 3001. -/
def rawYear3001 : ℤ := 32535216000

/-- `gmtime_s`: all fields are -1 when it refuses the time. The caller does not look at its
answer. -/
def gmtimeS (raw : ℤ) : Tm :=
  if 0 ≤ raw ∧ raw < rawYear3001 then gmtime raw else ⟨-1, -1, -1, -1, -1, -1⟩

/-- `_mkgmtime`: the answer is -1 when it refuses the time. -/
def mkgmtime (value : Tm) : ℤ :=
  let raw := timegm value
  if 0 ≤ raw ∧ raw < rawYear3001 then raw else -1

/-- `format_utc` with its `_WIN32` branch. -/
def windowsFormatUtc (timePoint : ℤ) : Text := printUtc (gmtimeS (castSeconds timePoint))

/-- `parse_utc` with the `_WIN32` branch of `utc_timegm`. -/
def windowsParseUtc (value : Text) : Option ℤ :=
  (scanUtc value).bind fun utc => fromTimeT (mkgmtime utc)

end SsdCache
