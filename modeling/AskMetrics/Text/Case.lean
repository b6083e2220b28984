/-!
# Letter case

Case matters in three ways: words compared without regard to ASCII case, patterns that ignore case
by the Unicode rules, and texts lowered before ASCII markers are looked for in them. The last two
reach beyond ASCII in three characters only: the long s folds to `s`, the Kelvin sign folds and
lowers to `k`, and the dotted capital I lowers to `i` followed by a combining dot.
-/
namespace AskMetrics.Text

/-- Lowers the ASCII letters of a text. -/
def lowerAscii (s : List Char) : List Char :=
  s.map Char.toLower

/-- Whether `c` is the ASCII letter `letter`, given in lower case, when case is ignored: besides
the two ASCII forms, the long s counts as `s` and the Kelvin sign as `k`. -/
def sameLetter (letter c : Char) : Bool :=
  c.toLower == letter || (letter == 's' && c == '\u017f') || (letter == 'k' && c == '\u212a')

/-- Whether `c` is an ASCII letter when case is ignored. -/
def isAnyLetter (c : Char) : Bool :=
  c.isAlpha || c == '\u017f' || c == '\u212a'

/-- The lower case of one character. Characters outside ASCII whose lower case holds no ASCII
character stay as they are, since nothing here looks at them afterwards. -/
def lowerChar (c : Char) : List Char :=
  if c == '\u212a' then ['k']
  else if c == '\u0130' then ['i', '\u0307']
  else [c.toLower]

/-- Lower case as far as ASCII markers can tell. -/
def lowered (s : List Char) : List Char :=
  s.flatMap lowerChar

/-- Whether `part` occurs in a text as a contiguous part. -/
def mentions (part : List Char) : List Char → Bool
  | [] => part.isEmpty
  | c :: cs => part.isPrefixOf (c :: cs) || mentions part cs

/-- Whether a string, as it is written, mentions a marker. -/
def mentionsString (marker : String) (s : List Char) : Bool :=
  mentions marker.toList s

end AskMetrics.Text
