import AskMetrics.Number.Decimal

/-!
# JSON values

A `Json` is what a text holds as far as the text is JSON. Reading does not stop to judge: a text
that breaks off or goes wrong gives the part before, with a mark where it went wrong, so that a
decoder meets the first fault in the order of the text, be it a fault of the text or of a value.

Members of an object stay in the order of the text, repeated keys included. A string that is no
Unicode text, because an escape names half of a surrogate pair, is kept as unreadable: it does no
harm where it is skipped.
-/
namespace AskMetrics

/-- A JSON number. Whole numbers that fit in 64 bits are kept exactly, others are rounded. -/
inductive Json.Number where
  /-- A whole number without sign. -/
  | natural (n : Nat)
  /-- A whole number with a minus sign; `n` is its magnitude, which is not zero. -/
  | negative (n : Nat)
  /-- A number with a point or an exponent, or a whole number too large to be kept exactly. -/
  | binary (d : Double)
  /-- A number beyond the range of floating point numbers. -/
  | tooLarge
  deriving DecidableEq, Repr

/-- A JSON value as far as its text can be read. -/
inductive Json where
  | null
  | bool (b : Bool)
  | number (n : Json.Number)
  /-- A string, or nothing when it is no Unicode text. -/
  | string (s : Option String)
  /-- Items in order. The text goes wrong after them unless `closed`. -/
  | array (items : List Json) (closed : Bool)
  /-- Members in order. The text goes wrong after them unless `closed`. -/
  | object (members : List (Option String × Json)) (closed : Bool)
  /-- The text is no JSON from here on. -/
  | malformed
  deriving Repr

namespace Json

/-- A string value. -/
def str (s : String) : Json := .string (some s)

/-- A natural number. -/
def nat (n : Nat) : Json := .number (.natural n)

/-- A whole number. -/
def int : Int → Json
  | .ofNat n => .number (.natural n)
  | .negSucc n => .number (.negative (n + 1))

/-- A floating point number. -/
def double (d : Double) : Json := .number (.binary d)

/-- A complete array. -/
def list (items : List Json) : Json := .array items true

/-- A complete array of strings. -/
def strings (items : List String) : Json := .array (items.map str) true

/-- A complete object. -/
def record (members : List (String × Json)) : Json :=
  .object (members.map fun (key, value) => (some key, value)) true

/-- A value, or null when there is none. -/
def orNull (value : Option Json) : Json := value.getD .null

/-- A member that is left out when it has no value. -/
def optional (key : String) (value : Option Json) : List (String × Json) :=
  match value with
  | some v => [(key, v)]
  | none => []

/-! ## Text of a value -/

/-- A digit below 16. -/
def hexDigit (n : Nat) : Char :=
  if n < 10 then .ofNat (n + '0'.toNat) else .ofNat (n - 10 + 'a'.toNat)

/-- Four hexadecimal digits. -/
def hex4 (n : Nat) : List Char :=
  [hexDigit (n / 4096 % 16), hexDigit (n / 256 % 16), hexDigit (n / 16 % 16), hexDigit (n % 16)]

/-- A character inside a string: quotes, backslashes and control characters are escaped. -/
def escape (c : Char) : List Char :=
  if c == '"' then ['\\', '"']
  else if c == '\\' then ['\\', '\\']
  else if c == '\n' then ['\\', 'n']
  else if c == '\r' then ['\\', 'r']
  else if c == '\t' then ['\\', 't']
  else if c == '\x08' then ['\\', 'b']
  else if c == '\x0c' then ['\\', 'f']
  else if c.toNat < 0x20 then '\\' :: 'u' :: hex4 c.toNat
  else [c]

/-- A string in quotes. -/
def quoted (s : String) : String :=
  "\"" ++ .ofList (s.toList.flatMap escape) ++ "\""

/-- The text of a number. A floating point number that is not finite has none and becomes null. -/
def Number.render : Number → String
  | natural n => toString n
  | negative n => "-" ++ toString n
  | binary d => if d.isFinite then d.literal else "null"
  | tooLarge => "null"

mutual

/-- The text of a value, without blanks. What cannot be read is written as null or left out. -/
def render : Json → String
  | null => "null"
  | bool b => if b then "true" else "false"
  | number n => n.render
  | string (some s) => quoted s
  | string none => "null"
  | array items _ => "[" ++ renderItems items true ++ "]"
  | object members _ => "\x7b" ++ renderMembers members true ++ "\x7d"
  | malformed => "null"

/-- The items of an array, each but the first after a comma. -/
def renderItems : List Json → Bool → String
  | [], _ => ""
  | item :: items, isFirst =>
    (if isFirst then "" else ",") ++ render item ++ renderItems items false

/-- The members of an object, each but the first after a comma. -/
def renderMembers : List (Option String × Json) → Bool → String
  | [], _ => ""
  | (key, value) :: members, isFirst =>
    (if isFirst then "" else ",") ++ quoted (key.getD "") ++ ":" ++ render value ++
      renderMembers members false

end

end Json

end AskMetrics
