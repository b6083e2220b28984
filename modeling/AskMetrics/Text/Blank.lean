/-!
# Blank characters

White space decides where words end, where a line of a reply is empty and where the edges of a
text are trimmed. Two sets are in use: the Unicode property `White_Space`, and its ASCII part
without the vertical tab, which is what a backward scan over a query skips.
-/
namespace AskMetrics.Text

/-- The 25 characters of the Unicode property `White_Space`. -/
def isBlank (c : Char) : Bool :=
  let n := c.toNat
  (9 ≤ n && n ≤ 13) || n == 0x20 || n == 0x85 || n == 0xA0 || n == 0x1680 ||
    (0x2000 ≤ n && n ≤ 0x200A) || n == 0x2028 || n == 0x2029 || n == 0x202F || n == 0x205F ||
    n == 0x3000

/-- The blanks that a scan over ASCII text skips. The vertical tab is not among them. -/
def isAsciiBlank (c : Char) : Bool :=
  c == ' ' || c == '\t' || c == '\n' || c == '\x0c' || c == '\r'

/-- Leaves out the blanks at the start. -/
def trimStart (s : List Char) : List Char :=
  s.dropWhile isBlank

/-- Leaves out the blanks at the end. -/
def trimEnd (s : List Char) : List Char :=
  (trimStart s.reverse).reverse

/-- Leaves out the blanks at both edges. -/
def trim (s : List Char) : List Char :=
  trimEnd (trimStart s)

/-- The parts of a text between separators. There is always one part more than separators, so
neighbouring separators and separators at an edge give empty parts. -/
def pieces (separates : Char → Bool) : List Char → List (List Char)
  | [] => [[]]
  | c :: cs =>
    if separates c then [] :: pieces separates cs
    else match pieces separates cs with
      | [] => [[c]]
      | part :: parts => (c :: part) :: parts

/-- The non-empty parts of a text between blanks. -/
def words (s : List Char) : List (List Char) :=
  (pieces isBlank s).filter (· ≠ [])

/-- Puts parts together with a separator between each two of them. -/
def joinWith (separator : List Char) : List (List Char) → List Char
  | [] => []
  | [part] => part
  | part :: parts => part ++ separator ++ joinWith separator parts

/-- Trims a string. -/
def trimString (s : String) : String :=
  String.ofList (trim s.toList)

/-- Whether nothing but blanks is in a string. -/
def isBlankString (s : String) : Bool :=
  s.toList.all isBlank

end AskMetrics.Text
