/-!
# String literals in a query

Label values are free text: they may hold brackets, keywords and anything else, and must not be
taken for the syntax around them. Masking replaces what is inside string literals by spaces, so
positions stay the same and the checks on a query see its syntax alone.

A literal opens with one of three quotes outside any literal and closes with the same quote. A
backslash inside a literal takes the next character with it.
-/
namespace AskMetrics.Query

/-- The three characters that open a string literal. -/
def isQuote (c : Char) : Bool :=
  c == '"' || c == '\'' || c == '\x60'

/-- Where a place of a text is with regard to string literals. -/
inductive Quoting where
  /-- Outside any literal. -/
  | outside
  /-- Inside a literal that closes with `quote`. -/
  | inside (quote : Char)
  /-- After a backslash inside a literal that closes with `quote`. -/
  | escaped (quote : Char)
  deriving DecidableEq, Repr

namespace Quoting

/-- The place after a character. -/
def next : Quoting → Char → Quoting
  | outside, c => if isQuote c then inside c else outside
  | inside quote, c =>
    if c == '\\' then escaped quote else if c == quote then outside else inside quote
  | escaped quote, _ => inside quote

/-- The character that is shown for `c`: the character itself outside literals and where a quote
opens or closes one, and a space inside. -/
def shown : Quoting → Char → Char
  | outside, c => c
  | inside quote, c => if c == '\\' then ' ' else if c == quote then c else ' '
  | escaped _, _ => ' '

/-- The place after a text. -/
def after (q : Quoting) (s : List Char) : Quoting :=
  s.foldl next q

end Quoting

/-- Blanks the contents of the literals of a text that starts at a given place. -/
def maskFrom : Quoting → List Char → List Char
  | _, [] => []
  | q, c :: cs => q.shown c :: maskFrom (q.next c) cs

/-- Blanks the contents of all string literals. -/
def mask (s : List Char) : List Char :=
  maskFrom .outside s

/-- Whether a string literal is still open at the end of a text. -/
def leavesOpen (s : List Char) : Bool :=
  Quoting.after .outside s != .outside

end AskMetrics.Query
