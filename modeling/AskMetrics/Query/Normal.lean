import AskMetrics.Query.Literal
import AskMetrics.Text.Pattern

/-!
# The normal form of a reply

A model asked for one line of PromQL often decorates it: with code fences, with an echoed label,
with quotes around the line or with a full stop. The normal form is the first non-empty line
without these, with single spaces between words.
-/
namespace AskMetrics.Query

open AskMetrics.Text

/-- A code fence, with the language name if that is directly attached. -/
def fence : Pattern :=
  .andThen (.literal "\x60\x60\x60") (.optional (.anyCase "promql"))

/-- A label at the start of a text, with the colon and the blanks around it. -/
def label : Pattern :=
  .sequence [.atStart, .oneOf [.anyCase "promql", .anyCase "query", .anyCase "output"], .blanks,
    .char ':', .blanks]

/-- Leaves out all code fences. -/
def dropFences (s : List Char) : List Char :=
  replaceAll [fence] (fun _ => []) s

/-- Leaves out a label at the start, and then trims. A text without one stays as it is. -/
def dropLabel (s : List Char) : List Char :=
  match findFirst [label] s with
  | some m => trim m.stop.ahead
  | none => s

/-- Leaves out the last character if it is of a class. -/
def dropLast (drops : Char → Bool) (s : List Char) : List Char :=
  match s.getLast? with
  | some c => if drops c then s.dropLast else s
  | none => s

/-- Leaves out the first character if it is of a class. -/
def dropFirst (drops : Char → Bool) : List Char → List Char
  | [] => []
  | c :: cs => if drops c then cs else c :: cs

/-- Whether a text of at least two characters starts and ends with the same quote. -/
def isWrapped (s : List Char) : Bool :=
  match s with
  | c :: d :: cs => isQuote c && (d :: cs).getLast? == some c
  | _ => false

/-- Leaves out the quotes around a text. A query neither starts nor ends with a quote, so a quote
at one edge only is left out as well. -/
def dropQuotes (s : List Char) : List Char :=
  if isWrapped s then trim (s.drop 1).dropLast
  else trim (dropLast isQuote (dropFirst isQuote s))

/-- Leaves out one mark of punctuation at the end. -/
def dropStop (s : List Char) : List Char :=
  dropLast (fun c => c == '.' || c == ';' || c == ',') s

/-- The first line that is not blank, trimmed; empty when all are blank. -/
def firstLine (s : List Char) : List Char :=
  (((pieces (· == '\n') s).map trim).find? (· ≠ [])).getD []

/-- Single spaces between the words of a text and none around them. -/
def collapseBlanks (s : List Char) : List Char :=
  joinWith [' '] (words s)

/-- The normal form of a text. A label on a line of its own takes the line break with it, and a
label may stand before or inside the quotes. -/
def normalize (s : List Char) : List Char :=
  let line := firstLine (dropLabel (trim (dropFences s)))
  collapseBlanks (dropStop (dropLabel (dropQuotes (dropLabel line))))

end AskMetrics.Query
