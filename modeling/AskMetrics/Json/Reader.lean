import AskMetrics.Json.Value

/-!
# Reading JSON

Every function here takes the text that is left and returns what it read together with the rest,
or with nothing when the text went wrong. Numbers are read in the usual two steps: as many digits
as fit in 64 bits, then a power of ten. A product or quotient of two rounded numbers is taken, so
a number with many digits can differ in its last bit from the nearest one.
-/
namespace AskMetrics.Json

/-- The four blanks of JSON. -/
def isSpace (c : Char) : Bool :=
  c == ' ' || c == '\n' || c == '\t' || c == '\r'

/-- Skips blanks. -/
def skipSpace (s : List Char) : List Char := s.dropWhile isSpace

/-! ## Numbers -/

/-- The largest whole number that is kept exactly. -/
def maxNatural : Nat := twoTo 64 - 1

/-- The value of a digit. -/
def digitValue (c : Char) : Nat := c.toNat - '0'.toNat

/-- A significand times a power of ten. The power is taken from the numbers nearest to the powers
of ten up to 10 ^ 308, more than once if need be, with one rounding each time. -/
def scaleTen : Nat → Double → Int → Number
  | fuel, d, e =>
    if e.natAbs ≤ 308 then
      let power := Double.ofScientific false 1 e.natAbs
      if 0 ≤ e then
        let product := d.mul power
        if product.isFinite then .binary product else .tooLarge
      else .binary (d.div power)
    else if d.significand = 0 then .binary d
    else if 0 ≤ e then .tooLarge
    else match fuel with
      | 0 => .binary (.zero d.negative)
      | fuel + 1 => scaleTen fuel (d.div (.ofScientific false 1 308)) (e + 308)

/-- The floating point number with a significand and a power of ten. Four steps are enough, since
three divisions by 10 ^ 308 leave zero of any significand. -/
def floating (negative : Bool) (significand : Nat) (e : Int) : Number :=
  match scaleTen 4 (.ofNat significand) e with
  | .binary d => .binary (if negative then d.neg else d)
  | other => other

/-- Takes digits into a significand as long as it fits in 64 bits. Returns the significand, how
many digits were taken and the text from the first digit that does not fit. -/
def takeDigits : Nat → Nat → List Char → Nat × Nat × List Char
  | significand, taken, [] => (significand, taken, [])
  | significand, taken, c :: cs =>
    if c.isDigit && significand * 10 + digitValue c ≤ maxNatural then
      takeDigits (significand * 10 + digitValue c) (taken + 1) cs
    else (significand, taken, c :: cs)

/-- The largest exponent that is read exactly. -/
def maxExponent : Nat := twoTo 31 - 1

/-- An exponent after its letter: the number with it, and the rest. An exponent that is too large
leaves zero, unless the number grows with it. -/
def readExponent (negative : Bool) (significand : Nat) (e : Int) (s : List Char) :
    Option (Number × List Char) :=
  let (down, digits) := match s with
    | '+' :: cs => (false, cs)
    | '-' :: cs => (true, cs)
    | cs => (false, cs)
  let run := digits.takeWhile Char.isDigit
  let rest := digits.dropWhile Char.isDigit
  if run.isEmpty then none
  else
    let n := Double.ofDigits run
    if n > maxExponent then
      if significand != 0 && !down then some (.tooLarge, rest)
      else some (.binary (.zero negative), rest)
    else some (floating negative significand (if down then e - n else e + n), rest)

/-- What follows the digits of a floating point number. -/
def readTail (negative : Bool) (significand : Nat) (e : Int) (s : List Char) :
    Option (Number × List Char) :=
  match s with
  | c :: cs =>
    if c == 'e' || c == 'E' then readExponent negative significand e cs
    else some (floating negative significand e, s)
  | [] => some (floating negative significand e, [])

/-- Digits after a point, of which there is at least one. From the first digit on that does not
fit in the significand they do not count. -/
def readFraction (negative : Bool) (significand : Nat) (e : Int) (s : List Char) :
    Option (Number × List Char) :=
  if !(s.head?.any Char.isDigit) then none
  else
    let (n, taken, rest) := takeDigits significand 0 s
    readTail negative n (e - taken) (rest.dropWhile Char.isDigit)

/-- A number whose sign has been read. A whole number is kept exactly if it fits in 64 bits; minus
zero is floating point. -/
def readUnsigned (negative : Bool) (s : List Char) : Option (Number × List Char) :=
  let (n, _, rest) := match s with
    | '0' :: cs => (0, 1, cs)
    | cs => takeDigits 0 0 cs
  if !(s.head?.any Char.isDigit) then none
  else if s.head? == some '0' && rest.head?.any Char.isDigit then none
  else
    let beyond := (rest.takeWhile Char.isDigit).length
    let after := rest.dropWhile Char.isDigit
    match after with
    | '.' :: cs => readFraction negative n beyond cs
    | c :: cs =>
      if c == 'e' || c == 'E' then readExponent negative n beyond cs
      else some (whole n beyond, after)
    | [] => some (whole n beyond, [])
where
  /-- A number without point and exponent, with digits left that did not fit. -/
  whole (n beyond : Nat) : Number :=
    if beyond != 0 then floating negative n beyond
    else if !negative then .natural n
    else if n = 0 || twoTo 63 < n then .binary (Double.ofNat n).neg
    else .negative n

/-- A number. -/
def readNumber : List Char → Option (Number × List Char)
  | '-' :: cs => readUnsigned true cs
  | cs => readUnsigned false cs

/-! ## Strings -/

/-- The value of a hexadecimal digit. -/
def hexValue? (c : Char) : Option Nat :=
  if c.isDigit then some (c.toNat - '0'.toNat)
  else if 'a' ≤ c && c ≤ 'f' then some (c.toNat - 'a'.toNat + 10)
  else if 'A' ≤ c && c ≤ 'F' then some (c.toNat - 'A'.toNat + 10)
  else none

/-- Four hexadecimal digits. -/
def readHex4 : List Char → Option (Nat × List Char)
  | a :: b :: c :: d :: rest => do
    let a ← hexValue? a
    let b ← hexValue? b
    let c ← hexValue? c
    let d ← hexValue? d
    return (((a * 16 + b) * 16 + c) * 16 + d, rest)
  | _ => none

/-- The character of an escape with one letter. -/
def escaped? : Char → Option Char
  | '"' => some '"'
  | '\\' => some '\\'
  | '/' => some '/'
  | 'b' => some '\x08'
  | 'f' => some '\x0c'
  | 'n' => some '\n'
  | 'r' => some '\r'
  | 't' => some '\t'
  | _ => none

/-- The UTF-16 units of a string up to its closing quote, and the rest. Control characters must be
escaped. Each step takes a character, which the fuel counts. -/
def readUnits : Nat → List Nat → List Char → Option (List Nat × List Char)
  | 0, _, _ => none
  | _, _, [] => none
  | _, units, '"' :: rest => some (units.reverse, rest)
  | fuel + 1, units, '\\' :: 'u' :: cs =>
    match readHex4 cs with
    | some (unit, rest) => readUnits fuel (unit :: units) rest
    | none => none
  | fuel + 1, units, '\\' :: c :: cs =>
    match escaped? c with
    | some d => readUnits fuel (d.toNat :: units) cs
    | none => none
  | fuel + 1, units, c :: cs =>
    if c == '\\' || c.toNat < 0x20 then none else readUnits fuel (c.toNat :: units) cs

/-- Whether a unit is the first half of a surrogate pair. -/
def isLeading (n : Nat) : Bool := 0xD800 ≤ n && n < 0xDC00

/-- Whether a unit is the second half of a surrogate pair. -/
def isTrailing (n : Nat) : Bool := 0xDC00 ≤ n && n < 0xE000

/-- The text of some units, where surrogate pairs stand for one character. A half without the
other makes the units no text. -/
def ofUnits : List Nat → List Char → Option (List Char)
  | [], text => some text.reverse
  | [n], text => if isLeading n || isTrailing n then none else some (Char.ofNat n :: text).reverse
  | n :: m :: units, text =>
    if isLeading n then
      if isTrailing m then
        ofUnits units (Char.ofNat (0x10000 + (n - 0xD800) * 0x400 + (m - 0xDC00)) :: text)
      else none
    else if isTrailing n then none
    else ofUnits (m :: units) (Char.ofNat n :: text)

/-- A string after its opening quote; none inside when it is no Unicode text. -/
def readString (s : List Char) : Option (Option String × List Char) :=
  (readUnits (s.length + 1) [] s).map fun (units, rest) =>
    ((ofUnits units []).map .ofList, rest)

/-! ## Values -/

/-- What follows a word that is spelt out. -/
def afterWord? (word : String) (s : List Char) : Option (List Char) :=
  if word.toList.isPrefixOf s then some (s.drop word.length) else none

/-- A value that is written as a word, of which the first letter has been read. -/
def readWord (tail : String) (value : Json) (cs : List Char) : Json × Option (List Char) :=
  match afterWord? tail cs with
  | some rest => (value, some rest)
  | none => (.malformed, none)

mutual

/-- A value after blanks, and the text after it unless it went wrong. -/
def readValue : Nat → List Char → Json × Option (List Char)
  | 0, _ => (.malformed, none)
  | fuel + 1, s =>
    match skipSpace s with
    | '[' :: cs =>
      match skipSpace cs with
      | ']' :: rest => (.array [] true, some rest)
      | cs =>
        let (items, rest) := readItems fuel cs
        (.array items rest.isSome, rest)
    | '\x7b' :: cs =>
      match skipSpace cs with
      | '\x7d' :: rest => (.object [] true, some rest)
      | cs =>
        let (members, rest) := readMembers fuel cs
        (.object members rest.isSome, rest)
    | '"' :: cs =>
      match readString cs with
      | some (text, rest) => (.string text, some rest)
      | none => (.malformed, none)
    | 'n' :: cs => readWord "ull" .null cs
    | 't' :: cs => readWord "rue" (.bool true) cs
    | 'f' :: cs => readWord "alse" (.bool false) cs
    | cs =>
      match readNumber cs with
      | some (n, rest) => (.number n, some rest)
      | none => (.malformed, none)

/-- The items of an array from one item on, and the text after the closing bracket. -/
def readItems : Nat → List Char → List Json × Option (List Char)
  | 0, _ => ([], none)
  | fuel + 1, s =>
    match readValue fuel s with
    | (item, none) => ([item], none)
    | (item, some rest) =>
      match skipSpace rest with
      | ',' :: more =>
        let (items, rest) := readItems fuel more
        (item :: items, rest)
      | ']' :: rest => ([item], some rest)
      | _ => ([item], none)

/-- The members of an object from one key on, and the text after the closing bracket. -/
def readMembers : Nat → List Char → List (Option String × Json) × Option (List Char)
  | 0, _ => ([], none)
  | fuel + 1, s =>
    match skipSpace s with
    | '"' :: cs =>
      match readString cs with
      | none => ([], none)
      | some (key, rest) =>
        match skipSpace rest with
        | ':' :: rest =>
          match readValue fuel rest with
          | (value, none) => ([(key, value)], none)
          | (value, some rest) =>
            match skipSpace rest with
            | ',' :: more =>
              let (members, rest) := readMembers fuel more
              ((key, value) :: members, rest)
            | '\x7d' :: rest => ([(key, value)], some rest)
            | _ => ([(key, value)], none)
        | _ => ([(key, .malformed)], none)
    | _ => ([], none)

end

/-- The value at the start of a text, and the text after it unless it went wrong. Every call takes
at most two steps for each character, which bounds the fuel. -/
def ofText (s : List Char) : Json × Option (List Char) :=
  readValue (2 * s.length + 2) s

end AskMetrics.Json
