import AskMetrics.Json.Value
import AskMetrics.Number.Natural
import AskMetrics.Text.Blank

/-!
# Network addresses

An address has four bytes or eight groups of 16 bits. The four bytes are written in decimal with
points between. The groups are written in hexadecimal with colons between; two colons stand for a
run of zero groups, and the last two groups may be written like four bytes. An address that embeds
four bytes behind `ffff` is written in that way, and of several runs of zeros the first longest is
left out, if it is longer than one.
-/
namespace AskMetrics.Http

/-- A network address. -/
inductive Address where
  | v4 (a b c d : Nat)
  | v6 (groups : List Nat)
  deriving DecidableEq, Repr

/-- An address with a port number. -/
structure Endpoint where
  address : Address
  /-- The scope of an address of eight groups; zero means none. -/
  scope : Nat
  portNumber : Nat
  deriving DecidableEq, Repr

/-! ## Reading

Each reader takes the text that is left and gives what it read with the rest. -/

/-- The value of a digit in a base up to 16. -/
def digitIn? (base : Nat) (c : Char) : Option Nat :=
  let value? :=
    if '0' ≤ c && c ≤ '9' then some (c.toNat - '0'.toNat)
    else if 'a' ≤ c && c ≤ 'f' then some (c.toNat - 'a'.toNat + 10)
    else if 'A' ≤ c && c ≤ 'F' then some (c.toNat - 'A'.toNat + 10)
    else none
  value?.filter (· < base)

/-- Reads a number: all the digits there are, which may be at most `width` and make at most
`most`. -/
def readNumber (base width most : Nat) (leadingZero : Bool) (s : List Char) :
    Option (Nat × List Char) :=
  let digits := s.takeWhile fun c => (digitIn? base c).isSome
  let n := digits.foldl (fun n c => n * base + (digitIn? base c).getD 0) 0
  if digits.isEmpty || width < digits.length || most < n then none
  else if !leadingZero && digits.head? == some '0' && 1 < digits.length then none
  else some (n, s.drop digits.length)

/-- Reads one character. -/
def readChar (expected : Char) : List Char → Option (Unit × List Char)
  | c :: rest => if c == expected then some ((), rest) else none
  | [] => none

/-- Reads a number of one byte. -/
def readByte (s : List Char) : Option (Nat × List Char) := readNumber 10 3 255 false s

/-- Reads four bytes with points between. -/
def readV4 (s : List Char) : Option ((Nat × Nat × Nat × Nat) × List Char) := do
  let (a, s) ← readByte s
  let (_, s) ← readChar '.' s
  let (b, s) ← readByte s
  let (_, s) ← readChar '.' s
  let (c, s) ← readByte s
  let (_, s) ← readChar '.' s
  let (d, s) ← readByte s
  some ((a, b, c, d), s)

/-- Reads what comes between two groups. -/
def readColon (isFirst : Bool) (s : List Char) : Option (Unit × List Char) :=
  if isFirst then some ((), s) else readChar ':' s

/-- Some groups, whether they end in four bytes, and the rest. -/
structure Groups where
  groups : List Nat
  endsInV4 : Bool
  rest : List Char

/-- Reads as many groups as there are, up to a number. -/
def readGroups : Nat → Bool → List Char → Groups
  | 0, _, s => ⟨[], false, s⟩
  | room + 1, isFirst, s =>
    let embedded := if room = 0 then none else (readColon isFirst s).bind fun (_, s) => readV4 s
    match embedded with
    | some ((a, b, c, d), rest) => ⟨[a * 256 + b, c * 256 + d], true, rest⟩
    | none =>
      match (readColon isFirst s).bind fun (_, s) => readNumber 16 4 max16 true s with
      | none => ⟨[], false, s⟩
      | some (g, rest) =>
        let more := readGroups room false rest
        ⟨g :: more.groups, more.endsInV4, more.rest⟩

/-- Reads eight groups, or fewer with two colons for the rest. -/
def readV6 (s : List Char) : Option ((List Nat) × List Char) :=
  let head := readGroups 8 true s
  let count := head.groups.length
  if count = 8 then some (head.groups, head.rest)
  else if head.endsInV4 then none
  else do
    let (_, s) ← readChar ':' head.rest
    let (_, s) ← readChar ':' s
    let tail := readGroups (7 - count) true s
    let zeros := List.replicate (8 - count - tail.groups.length) 0
    some (head.groups ++ zeros ++ tail.groups, tail.rest)

/-- Reads an address. -/
def readAddress (s : List Char) : Option (Address × List Char) :=
  match readV4 s with
  | some ((a, b, c, d), rest) => some (.v4 a b c d, rest)
  | none => (readV6 s).map fun (groups, rest) => (.v6 groups, rest)

/-- Reads a port number behind a colon. -/
def readPort (s : List Char) : Option (Nat × List Char) := do
  let (_, s) ← readChar ':' s
  readNumber 10 s.length max16 true s

/-- Reads an address of four bytes with a port number. -/
def readEndpointV4 (s : List Char) : Option (Endpoint × List Char) := do
  let ((a, b, c, d), s) ← readV4 s
  let (portNumber, s) ← readPort s
  some (⟨.v4 a b c d, 0, portNumber⟩, s)

/-- Reads a scope behind a percent sign, if there is one. -/
def readScope (s : List Char) : Nat × List Char :=
  match readChar '%' s with
  | none => (0, s)
  | some (_, rest) => (readNumber 10 rest.length max32 true rest).getD (0, s)

/-- Reads an address of eight groups in square brackets with a port number. -/
def readEndpointV6 (s : List Char) : Option (Endpoint × List Char) := do
  let (_, s) ← readChar '[' s
  let (groups, s) ← readV6 s
  let (scope, s) := readScope s
  let (_, s) ← readChar ']' s
  let (portNumber, s) ← readPort s
  some (⟨.v6 groups, scope, portNumber⟩, s)

/-- What a reader gives for a whole text. -/
def whole {α : Type} (read : List Char → Option (α × List Char)) (s : String) : Option α :=
  match read s.toList with
  | some (a, []) => some a
  | _ => none

/-- The address that a text is. -/
def Address.ofText? (s : String) : Option Address := whole readAddress s

/-- The address with a port number that a text is. -/
def Endpoint.ofText? (s : String) : Option Endpoint :=
  (whole readEndpointV4 s).or (whole readEndpointV6 s)

/-! ## Writing -/

/-- Four bytes with points between. -/
def v4Text (a b c d : Nat) : String := s!"{a}.{b}.{c}.{d}"

/-- A group. -/
def groupText (g : Nat) : String := .ofList (Nat.toDigits 16 g)

/-- Groups with colons between. -/
def groupsText (groups : List Nat) : String := ":".intercalate (groups.map groupText)

/-- How many groups from a place on are zero. -/
def zerosFrom (groups : List Nat) (start : Nat) : Nat :=
  ((groups.drop start).takeWhile (· == 0)).length

/-- The start and the length of the first longest run of zeros. -/
def longestZeros (groups : List Nat) : Nat × Nat :=
  (List.range groups.length).foldl
    (fun best start =>
      let length := zerosFrom groups start
      if best.2 < length then (start, length) else best)
    (0, 0)

/-- Eight groups, the first longest run of zeros left out. -/
def shortGroupsText (groups : List Nat) : String :=
  let (start, length) := longestZeros groups
  if 1 < length then
    groupsText (groups.take start) ++ "::" ++ groupsText (groups.drop (start + length))
  else groupsText groups

/-- Eight groups, of which the last two may be four embedded bytes. -/
def v6Text (groups : List Nat) : String :=
  match groups with
  | [0, 0, 0, 0, 0, 0xffff, high, low] =>
    "::ffff:" ++ v4Text (high / 256) (high % 256) (low / 256) (low % 256)
  | _ => shortGroupsText groups

/-- An address as it is written. -/
def Address.text : Address → String
  | v4 a b c d => v4Text a b c d
  | v6 groups => v6Text groups

/-- An address with a port number as it is written. -/
def Endpoint.text (e : Endpoint) : String :=
  match e.address with
  | .v4 .. => s!"{e.address.text}:{e.portNumber}"
  | .v6 _ =>
    "[" ++ e.address.text ++ (if e.scope = 0 then "" else s!"%{e.scope}") ++ s!"]:{e.portNumber}"

end AskMetrics.Http
