import SsdCache.Spec.Scheduler

/-!
# Conversions

`utf.cpp`: a UTF-16 path becomes UTF-8 text if every surrogate has its partner. What a file
holds is bytes (`utf8Bytes`).
-/

namespace SsdCache

def wideToUtf8 (value : WString) : Except String String :=
  if wellFormed value then .ok (String.ofList ((codePoints value).map Char.ofNat))
  else .error "failed to convert UTF-16 to UTF-8"

/-- The UTF-16 units of a character. -/
def utf16Units (c : Char) : WString :=
  if c.toNat < 0x10000 then [c.toNat.toUInt16]
  else
    [(0xD800 + (c.toNat - 0x10000) / 0x400).toUInt16,
      (0xDC00 + (c.toNat - 0x10000) % 0x400).toUInt16]

def utf8ToWide (value : String) : WString := value.toList.flatMap utf16Units

/-! ## Bytes -/

/-- The contents of a `std::string` or of a file. -/
abbrev Bytes : Type := List UInt8

def utf8Bytes (value : String) : Bytes := value.toByteArray.data.toList

/-- `wide_to_utf8`, to the bytes. -/
def encodeUtf8 (value : WString) : Except String Bytes := (wideToUtf8 value).map utf8Bytes

/-- `utf8_to_wide`, from the bytes. -/
def decodeUtf8 (value : Bytes) : Except String WString :=
  match String.fromUTF8? value.toByteArray with
  | some text => .ok (utf8ToWide text)
  | none => .error "failed to convert UTF-8 to UTF-16"

def narrowAscii (value : WString) : Except String Bytes :=
  if value.any (0x7F < ·) then .error "non-ASCII character cannot be narrowed"
  else .ok (value.map fun u => u.toUInt8)

end SsdCache
