import AskMetrics.Http.Form

/-!
# Paths

The path of an address is a row of pieces with slashes between. A piece `.` stands for the place
it is in and `..` for the place above, also when their points are written with percent signs. Both
are resolved. A piece that names a drive, a letter with a colon or bar after it, is a root: no `..`
leads above it.
-/
namespace AskMetrics.Http

open AskMetrics.Text

/-- Whether a character may not stand anywhere in an address. -/
def isUnsafe (c : Char) : Bool :=
  c.toNat ≤ 0x20 || 0x7F ≤ c.toNat || c == '"' || c == '<' || c == '>'

/-- The pieces of a path, without the slash in front. -/
abbrev Path := List (List Char)

namespace Path

/-- Whether a character may not stand in a path. -/
def isUnsafeInPath (c : Char) : Bool :=
  isUnsafe c || c == '\x60' || c == '\x7b' || c == '\x7d'

/-- Whether a character separates pieces. -/
def isSlash (c : Char) : Bool := c == '/' || c == '\\'

/-- Whether a piece stands for the place it is in. -/
def isHere (piece : List Char) : Bool :=
  [".", "%2e"].contains (.ofList (piece.map Char.toLower))

/-- Whether a piece stands for the place above. -/
def isAbove (piece : List Char) : Bool :=
  ["..", ".%2e", "%2e.", "%2e%2e"].contains (.ofList (piece.map Char.toLower))

/-- Whether a piece names a drive. -/
def isDrive : List Char → Bool
  | [letter, mark] => letter.isAlpha && (mark == ':' || mark == '|')
  | _ => false

/-- The place above one that is given last piece first. There is none above a drive. -/
def above : Path → Path
  | [] => []
  | piece :: place => if isDrive piece then piece :: place else place

/-- Resolves pieces; the first argument holds what is resolved, last piece first. Where the last
piece of all stands for a place, an empty piece comes after that place. -/
def resolve : Path → Path → Path
  | place, [] => place.reverse
  | place, [piece] =>
    if isAbove piece then ([] :: above place).reverse
    else if isHere piece then ([] :: place).reverse
    else (piece :: place).reverse
  | place, piece :: rest =>
    if isAbove piece then resolve (above place) rest
    else if isHere piece then resolve place rest
    else resolve (piece :: place) rest

/-- The pieces of a path, resolved and with percent signs where they are needed. A path that does
not start with a slash is empty. -/
def ofText (s : List Char) : Path :=
  (resolve [] ((pieces isSlash s).drop 1)).map (percentEncode isUnsafeInPath)

/-- A path as it is written. -/
def text (path : Path) : List Char := '/' :: joinWith ['/'] path

end Path

end AskMetrics.Http
