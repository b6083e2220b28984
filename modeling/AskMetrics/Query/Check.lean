import AskMetrics.Query.Delimiters
import AskMetrics.Query.Metrics
import AskMetrics.Query.Normal
import AskMetrics.Query.Shape

/-!
# Checked queries

A reply becomes a query when its normal form breaks none of the rules. This is no parser of the
query language: it refuses what can never be executed. The rules are tried in a fixed order and
the first broken one is reported.
-/
namespace AskMetrics.Query

open AskMetrics.Text

/-- The fewest characters of a query. -/
def minLength : Nat := 3

/-- The most characters of a query. Anything longer is prose. -/
def maxLength : Nat := 500

/-- What a model answers to decline. -/
def noAnswer : String := "NONE"

/-- A query text together with the names in it that look like metrics. -/
structure CheckedQuery where
  text : String
  metrics : List String
  deriving DecidableEq, Repr

namespace CheckedQuery

/-- The query with a given text. -/
def ofText (s : List Char) : CheckedQuery :=
  ⟨.ofList s, (metricNames s).map .ofList⟩

end CheckedQuery

/-- Whether a name or a round bracket is somewhere in a text. -/
def hasIdentifier (s : List Char) : Bool :=
  s.any fun c => isIdentStart c || c == '('

/-- The first rule that a text in normal form breaks. Shapes and delimiters are looked for in the
masked text, names and the length in the text itself. -/
def brokenRule? (s : List Char) : Option Rule :=
  let masked := mask s
  if s.length < minLength then some .emptyQuery
  else if leavesOpen s then some .unbalancedDelimiters
  else match shapeRules.find? (breaks masked) with
    | some rule => some rule
    | none =>
      if !isBalanced masked then some .unbalancedDelimiters
      else if !hasIdentifier s then some .missingIdentifier
      else if s.length > maxLength then some .proseContamination
      else none

/-- The query that a text in normal form is. -/
def checkNormal (s : List Char) : Except Violation CheckedQuery :=
  match brokenRule? s with
  | some rule => .error ⟨rule, .ofList s⟩
  | none => .ok (.ofText s)

/-- The query in a text. -/
def validate (raw : String) : Except Violation CheckedQuery :=
  checkNormal (normalize raw.toList)

/-- What a reply holds when nothing is wrong with it. -/
inductive Screened where
  /-- A query. -/
  | query (q : CheckedQuery)
  /-- The model declined. -/
  | declined
  deriving DecidableEq, Repr

/-- The query in a model's reply, unless the model declined, in any letter case. -/
def screen (raw : String) : Except Violation Screened :=
  let text := normalize raw.toList
  if lowerAscii text == lowerAscii noAnswer.toList then .ok .declined
  else (checkNormal text).map .query

end AskMetrics.Query
