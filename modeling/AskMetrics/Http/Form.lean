import AskMetrics.Json.Value
import AskMetrics.Text.Blank

/-!
# Forms

A form is a list of names with values, written as `name=value` with `&` between. A space is
written as `+`, and all but letters, digits and a few marks as the bytes of its UTF-8 text, each a
percent sign with two hexadecimal digits. Reading undoes this; a percent sign without two digits
stands for itself, and bytes that are no UTF-8 text are replaced.
-/
namespace AskMetrics.Http

open AskMetrics.Text

/-! ## Bytes -/

/-- The bytes of a character. -/
def utf8Bytes (c : Char) : List Nat :=
  let n := c.toNat
  if n < 0x80 then [n]
  else if n < 0x800 then [0xC0 + n / 64, 0x80 + n % 64]
  else if n < 0x10000 then [0xE0 + n / 4096, 0x80 + n / 64 % 64, 0x80 + n % 64]
  else [0xF0 + n / 262144, 0x80 + n / 4096 % 64, 0x80 + n / 64 % 64, 0x80 + n % 64]

/-- The character that stands for what cannot be read. -/
def replacement : Char := '\ufffd'

/-- How many bytes a character has that starts with a byte, the payload of that byte, and the
range of the byte after it. -/
def leadByte? (b : Nat) : Option (Nat × Nat × Nat × Nat) :=
  if 0xC2 ≤ b && b ≤ 0xDF then some (2, b - 0xC0, 0x80, 0xBF)
  else if b == 0xE0 then some (3, 0, 0xA0, 0xBF)
  else if b == 0xED then some (3, 0xD, 0x80, 0x9F)
  else if 0xE1 ≤ b && b ≤ 0xEF then some (3, b - 0xE0, 0x80, 0xBF)
  else if b == 0xF0 then some (4, 0, 0x90, 0xBF)
  else if 0xF1 ≤ b && b ≤ 0xF3 then some (4, b - 0xF0, 0x80, 0xBF)
  else if b == 0xF4 then some (4, 4, 0x80, 0x8F)
  else none

/-- Reads up to `count` further bytes of a character, the first of them within a range. Gives the
character if all are there, and how many bytes were read. -/
def continueChar : Nat → Nat → Nat → Nat → List Nat → Option Nat × Nat
  | 0, value, _, _, _ => (some value, 0)
  | _ + 1, _, _, _, [] => (none, 0)
  | count + 1, value, low, high, b :: rest =>
    if low ≤ b && b ≤ high then
      let (found, used) := continueChar count (value * 64 + b % 64) 0x80 0xBF rest
      (found, used + 1)
    else (none, 0)

/-- The text of some bytes. The longest start of a character that breaks off gives one
replacement, and so does a byte that starts none. The first number bounds the bytes. -/
def decodeUtf8From : Nat → List Nat → List Char
  | 0, _ => []
  | _, [] => []
  | fuel + 1, b :: rest =>
    if b < 0x80 then .ofNat b :: decodeUtf8From fuel rest
    else match leadByte? b with
      | none => replacement :: decodeUtf8From fuel rest
      | some (size, value, low, high) =>
        let (found, used) := continueChar (size - 1) value low high rest
        (match found with
          | some n => .ofNat n
          | none => replacement) :: decodeUtf8From fuel (rest.drop used)

/-- The text of some bytes. -/
def decodeUtf8 (bytes : List Nat) : List Char := decodeUtf8From bytes.length bytes

/-! ## Percent signs -/

/-- A byte in two hexadecimal digits after a percent sign. -/
def percentByte (b : Nat) : List Char :=
  ['%', (Json.hexDigit (b / 16)).toUpper, (Json.hexDigit (b % 16)).toUpper]

/-- A character as its bytes with percent signs. -/
def percentChar (c : Char) : List Char := (utf8Bytes c).flatMap percentByte

/-- The value of a hexadecimal digit. -/
def hexValue? (c : Char) : Option Nat :=
  if '0' ≤ c && c ≤ '9' then some (c.toNat - '0'.toNat)
  else if 'a' ≤ c && c ≤ 'f' then some (c.toNat - 'a'.toNat + 10)
  else if 'A' ≤ c && c ≤ 'F' then some (c.toNat - 'A'.toNat + 10)
  else none

/-- The bytes of a text with percent signs. -/
def percentBytes : List Char → List Nat
  | [] => []
  | '%' :: h :: l :: rest =>
    match hexValue? h, hexValue? l with
    | some a, some b => (a * 16 + b) :: percentBytes rest
    | _, _ => '%'.toNat :: percentBytes (h :: l :: rest)
  | c :: rest => utf8Bytes c ++ percentBytes rest

/-- A text with percent signs for all characters of a set. -/
def percentEncode (encoded : Char → Bool) (s : List Char) : List Char :=
  s.flatMap fun c => if encoded c then percentChar c else [c]

/-! ## Forms -/

/-- A character of a name or value. -/
def encodeFormChar (c : Char) : List Char :=
  if c == ' ' then ['+']
  else if c.isAlphanum || c == '*' || c == '-' || c == '.' || c == '_' then [c]
  else percentChar c

/-- A name or value as it is written. -/
def encodeFormText (s : String) : List Char := s.toList.flatMap encodeFormChar

/-- A form as it is written. -/
def encodeForm (pairs : List (String × String)) : String :=
  .ofList (joinWith ['&']
    (pairs.map fun (name, value) => encodeFormText name ++ '=' :: encodeFormText value))

/-- A name or value as it is read: plus signs are spaces before percent signs are read. -/
def decodeFormText (s : List Char) : String :=
  .ofList (decodeUtf8 (percentBytes (s.map fun c => if c == '+' then ' ' else c)))

/-- A form as it is read. Empty pieces between two `&` are left out; a piece without `=` is a name
with an empty value. -/
def decodeForm (s : String) : List (String × String) :=
  let parts := (pieces (· == '&') s.toList).filter (· ≠ [])
  parts.map fun part =>
    (decodeFormText (part.takeWhile (· != '=')),
      decodeFormText ((part.dropWhile (· != '=')).drop 1))

end AskMetrics.Http
