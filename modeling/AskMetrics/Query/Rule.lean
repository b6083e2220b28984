/-!
# Rules a query can break

A generated text is held to eleven rules. Each has a name, a code that callers can compare, and an
explanation that can be given back to whoever wrote the text. A violation is a rule together with
the normal form of the text that broke it.
-/
namespace AskMetrics.Query

/-- The rules a query is held to. -/
inductive Rule where
  /-- The text is shorter than a query can be. -/
  | emptyQuery
  /-- A range selector stands where a grouping belongs: `] by [`. -/
  | rangeBeforeGrouping
  /-- A grouping is written with square brackets: `by [`. -/
  | groupingBeforeRange
  /-- A complement grouping is written with square brackets: `without [`. -/
  | complementGroupingBrackets
  /-- The body after a grouping is not in round brackets: `sum by (l) x`. -/
  | aggregationBodyWithoutParens
  /-- An aggregation operator is followed neither by a round bracket nor by a grouping. -/
  | bareAggregation
  /-- A grouping does not belong to an aggregation. -/
  | groupingWithoutAggregation
  /-- A range selector is an operand of arithmetic. -/
  | rangeInArithmetic
  /-- A bracket closes before it opens, or it or a string literal never closes. -/
  | unbalancedDelimiters
  /-- Neither a name nor a call is in the text. -/
  | missingIdentifier
  /-- The text is longer than a query can be. -/
  | proseContamination
  deriving DecidableEq, Repr

namespace Rule

/-- All rules. -/
def all : List Rule :=
  [emptyQuery, rangeBeforeGrouping, groupingBeforeRange, complementGroupingBrackets,
    aggregationBodyWithoutParens, bareAggregation, groupingWithoutAggregation, rangeInArithmetic,
    unbalancedDelimiters, missingIdentifier, proseContamination]

/-- The name of a rule. -/
def name : Rule → String
  | emptyQuery => "EmptyQuery"
  | rangeBeforeGrouping => "RangeBeforeGrouping"
  | groupingBeforeRange => "GroupingBeforeRange"
  | complementGroupingBrackets => "ComplementGroupingBrackets"
  | aggregationBodyWithoutParens => "AggregationBodyWithoutParens"
  | bareAggregation => "BareAggregation"
  | groupingWithoutAggregation => "GroupingWithoutAggregation"
  | rangeInArithmetic => "RangeInArithmetic"
  | unbalancedDelimiters => "UnbalancedDelimiters"
  | missingIdentifier => "MissingIdentifier"
  | proseContamination => "ProseContamination"

/-- The code by which a rule is told apart in answers. -/
def code : Rule → String
  | emptyQuery => "EMPTY_QUERY"
  | rangeBeforeGrouping => "RANGE_BEFORE_GROUPING"
  | groupingBeforeRange => "GROUPING_BEFORE_RANGE"
  | complementGroupingBrackets => "COMPLEMENT_GROUPING_BRACKETS"
  | aggregationBodyWithoutParens => "AGGREGATION_BODY_WITHOUT_PARENS"
  | bareAggregation => "BARE_AGGREGATION"
  | groupingWithoutAggregation => "GROUPING_WITHOUT_AGGREGATION"
  | rangeInArithmetic => "RANGE_IN_ARITHMETIC"
  | unbalancedDelimiters => "UNBALANCED_DELIMITERS"
  | missingIdentifier => "MISSING_IDENTIFIER"
  | proseContamination => "PROSE_CONTAMINATION"

/-- The rule of a code. -/
def ofCode? (s : String) : Option Rule :=
  all.find? fun rule => rule.code == s

/-- What is wrong with a text that breaks the rule. -/
def description : Rule → String
  | emptyQuery => "Generated query is empty or too short"
  | rangeBeforeGrouping => "Incorrect placement of \"by\" clause with square brackets"
  | groupingBeforeRange =>
    "\"by\" must not be followed by square brackets. Use \"by (label)\" with an aggregation"
  | complementGroupingBrackets =>
    "\"without\" must be followed by parentheses (label), not square brackets"
  | aggregationBodyWithoutParens =>
    "Aggregation with a grouping clause must wrap its expression in parentheses"
  | bareAggregation =>
    "Aggregation operator must be followed by parentheses or a grouping clause"
  | groupingWithoutAggregation =>
    "\"by\"/\"without\" must belong to an aggregation such as sum() or avg()"
  | rangeInArithmetic =>
    "Cannot perform math directly on range vectors. Wrap them in rate() or another function first"
  | unbalancedDelimiters => "Unbalanced parentheses, brackets, braces, or quotes"
  | missingIdentifier => "Query must contain a metric name or function"
  | proseContamination => "Generated text is too long, likely prose instead of PromQL"

end Rule

/-- A broken rule and the normal form of the text that broke it. -/
structure Violation where
  rule : Rule
  query : String
  deriving DecidableEq, Repr

namespace Violation

/-- The message shown for a violation. It leaves out the text. -/
def message (v : Violation) : String :=
  "Invalid PromQL syntax: " ++ v.rule.description

end Violation

end AskMetrics.Query
