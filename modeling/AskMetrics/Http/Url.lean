import AskMetrics.Http.Host
import AskMetrics.Http.Path

/-!
# Addresses of requests

A client puts the address of a request together from a base and parts that may hold any
character. The address is read before it is used: line breaks and tabs are left out, so are a name
and a password before the host, the path is resolved, and what may not stand in an address is
written with percent signs. A form is added to the query that is there.
-/
namespace AskMetrics.Http

open AskMetrics.Text

/-- An address for HTTP. -/
structure Url where
  scheme : String
  host : Host
  /-- The port number, unless it is the one that goes with the scheme. -/
  portNumber : Option Nat
  path : Path
  /-- What follows the question mark, if there is one. -/
  query : Option (List Char)
  /-- What follows the number sign, if there is one. -/
  fragment : Option (List Char)
  deriving DecidableEq, Repr

namespace Url

/-! ## Reading -/

/-- Splits a text before the first character of a set. -/
def splitBefore (stops : Char → Bool) (s : List Char) : List Char × List Char :=
  (s.takeWhile fun c => !stops c, s.dropWhile fun c => !stops c)

/-- Leaves out spaces and control characters at both edges. -/
def trimControls (s : List Char) : List Char :=
  let trimmed := s.dropWhile fun c => c.toNat ≤ 0x20
  (trimmed.reverse.dropWhile fun c => c.toNat ≤ 0x20).reverse

/-- The port number that goes with a scheme. -/
def standardPort? (scheme : String) : Option Nat :=
  if scheme == "http" then some 80 else if scheme == "https" then some 443 else none

/-- Splits a host from what follows it. A colon between square brackets belongs to the host. -/
def splitHost : Bool → List Char → List Char × List Char
  | _, [] => ([], [])
  | inBrackets, c :: rest =>
    if c == ':' && !inBrackets then ([], c :: rest)
    else
      let (host, rest) := splitHost (c == '[' || (inBrackets && c != ']')) rest
      (c :: host, rest)

/-- Reads what follows a host: nothing, or a colon with a port number or nothing after it. -/
def readPort? : List Char → Option (Option Nat)
  | [] => some none
  | _ :: [] => some none
  | _ :: digits => if digits.head? == some '+' then none else (readNat? max16 digits).map some

/-- Reads a host and a port number. What stands before an at sign is left out. -/
def readAuthority? (standard : Nat) (s : List Char) : Option (Host × Option Nat) := do
  let (host, rest) := splitHost false (s.reverse.takeWhile (· != '@')).reverse
  let portNumber ← readPort? rest
  some (← Host.ofText? host, portNumber.filter (· != standard))

/-- The rest of a text behind its first character, if there is one, with percent signs for the
characters of a set. -/
def readMarked (encoded : Char → Bool) : List Char → Option (List Char)
  | [] => none
  | _ :: rest => some (percentEncode encoded rest)

/-- The address that a text is. -/
def ofText? (s : String) : Option Url := do
  let kept := (trimControls s.toList).filter fun c => c != '\t' && c != '\n' && c != '\r'
  let (scheme, rest) := splitBefore (· == ':') kept
  let scheme := String.ofList (lowerAscii scheme)
  let standard ← standardPort? scheme
  let (authority, rest) := splitBefore (fun c => Path.isSlash c || c == '?' || c == '#')
    ((rest.drop 1).dropWhile Path.isSlash)
  let (host, portNumber) ← readAuthority? standard authority
  let (path, rest) := splitBefore (fun c => c == '?' || c == '#') rest
  let (query, fragment) := splitBefore (· == '#') rest
  some {
    scheme, host, portNumber, path := .ofText path
    query := readMarked (fun c => isUnsafe c || c == '\'') query
    fragment := readMarked (fun c => isUnsafe c || c == '\x60') fragment }

/-! ## Writing -/

/-- A part behind a mark, if there is one. -/
def markedText (mark : Char) (part : Option (List Char)) : String :=
  (part.map fun s => String.ofList (mark :: s)).getD ""

/-- An address as it is written. -/
def text (u : Url) : String :=
  u.scheme ++ "://" ++ u.host.text ++ (u.portNumber.map fun n => s!":{n}").getD "" ++
    .ofList u.path.text ++ markedText '?' u.query ++ markedText '#' u.fragment

/-- An address with a form added to its query. -/
def withForm (u : Url) (form : List (String × String)) : Url :=
  if form.isEmpty then u
  else
    let before := match u.query.getD [] with
      | [] => []
      | query => query ++ ['&']
    { u with query := some (before ++ (encodeForm form).toList) }

/-! ## Use -/

/-- How many characters an address in a request may have. -/
def mostCarried : Nat := max16 - 1

/-- Whether a request can carry an address. -/
def isCarried (u : Url) : Bool :=
  u.text.length ≤ mostCarried && u.host.isReachable

end Url

end AskMetrics.Http
