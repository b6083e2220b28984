import AskMetrics.Http.Address
import AskMetrics.Http.Form
import AskMetrics.Http.Punycode
import AskMetrics.Text.Case

/-!
# Hosts

A host is told by a name or by its network address. A name is written in small ASCII letters. A
name whose last label is a number is an address of four bytes: a label may be decimal, octal or
hexadecimal, and the last one stands for all the bytes that are left. An address of eight groups
stands in square brackets.
-/
namespace AskMetrics.Http

open AskMetrics.Text

/-- What a host is told by. -/
inductive Host where
  | name (name : String)
  | address (address : Address)
  deriving DecidableEq, Repr

namespace Host

/-! ## Numbers -/

/-- The number that a label is: octal behind a zero, hexadecimal behind `0x`, else decimal. -/
def number? (label : List Char) : Option Nat :=
  let (base, digits) := match label with
    | '0' :: 'x' :: digits => (16, digits)
    | '0' :: d :: digits => (8, d :: digits)
    | _ => (10, label)
  if label.isEmpty || digits.any fun c => (digitIn? base c).isNone then none
  else some (digits.foldl (fun n c => n * base + (digitIn? base c).getD 0) 0)

/-- The labels of a name. A point at the end adds none. -/
def labels (name : List Char) : List (List Char) :=
  let parts := pieces (· == '.') name
  if 1 < parts.length && parts.getLast? == some [] then parts.dropLast else parts

/-- Whether the last label of a name is a number, or consists of digits. -/
def endsInNumber (name : List Char) : Bool :=
  ((labels name).getLast?.map fun label =>
    (number? label).isSome || (!label.isEmpty && label.all Char.isDigit)).getD false

/-- The address that is written as up to four numbers. -/
def ofNumbers? (name : List Char) : Option Address := do
  let numbers ← (labels name).mapM number?
  let last ← numbers.getLast?
  let bytes := numbers.dropLast
  let room := twoTo (8 * (4 - bytes.length))
  if 3 < bytes.length || bytes.any (255 < ·) || room ≤ last then none
  else
    let n := bytes.foldl (fun n byte => n * 256 + byte) 0 * room + last
    some (.v4 (n / twoTo 24) (n / twoTo 16 % 256) (n / 256 % 256) (n % 256))

/-! ## Hosts -/

/-- Whether a character may not stand in a name. -/
def isForbidden (c : Char) : Bool :=
  c.toNat ≤ 0x20 || c.toNat == 0x7F || c == replacement || "%#/:<>?@[\\]^|".toList.contains c

/-- The host that a name is. Percent signs are read; letters outside ASCII are taken as they
stand. -/
def ofName? (s : List Char) : Option Host :=
  let read := lowerAscii (decodeUtf8 (percentBytes s))
  let name := joinWith ['.'] ((pieces (· == '.') read).map Punycode.label)
  if name.isEmpty || read.any isForbidden then none
  else if endsInNumber name then (ofNumbers? name).map .address
  else some (.name (.ofList name))

/-- The host that a text is. -/
def ofText? : List Char → Option Host
  | '[' :: groups =>
    match readV6 groups with
    | some (groups, [']']) => some (.address (.v6 groups))
    | _ => none
  | s => ofName? s

/-- A host as it is written. -/
def text : Host → String
  | name s => s
  | address (.v4 a b c d) => v4Text a b c d
  | address (.v6 groups) => "[" ++ shortGroupsText groups ++ "]"

/-- Whether a request can be made to a host: a name may hold characters that no request can. -/
def isReachable (host : Host) : Bool :=
  host.text.toList.all fun c => c != '"' && c != '\x60' && c != '\x7b' && c != '\x7d'

end Host

end AskMetrics.Http
