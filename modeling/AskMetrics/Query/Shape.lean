import AskMetrics.Query.Rule
import AskMetrics.Text.Pattern

/-!
# Shapes that can never be a query

Seven of the rules forbid a shape in the masked text of a query. Five of them are patterns; the
other two look at every aggregation operator, or at every grouping keyword, in turn.
-/
namespace AskMetrics.Query

open AskMetrics.Text

/-- The operators that take a grouping. -/
def aggregationOperators : List String :=
  ["sum", "avg", "min", "max", "count", "stddev", "stdvar", "topk", "bottomk", "quantile",
    "count_values", "group", "limitk", "limit_ratio"]

/-- One of some words as they are written. -/
def anyWord (ws : List String) : Pattern :=
  .oneOf (ws.map .literal)

/-- `] by [`. -/
def rangeThenGrouping : Pattern :=
  .sequence [.char ']', .blanks, .literal "by", .blanks, .char '[']

/-- `by [`. -/
def groupingInBrackets : Pattern :=
  .sequence [.edge, .literal "by", .blanks, .char '[']

/-- `without [`. -/
def complementInBrackets : Pattern :=
  .sequence [.edge, .literal "without", .blanks, .char '[']

/-- An aggregation with its grouping, followed by something else than a round bracket or by the
end of the text. -/
def groupedWithoutBody : Pattern :=
  .sequence [.edge, anyWord ["sum", "avg", "min", "max", "count"], .someBlanks,
    anyWord ["by", "without"], .blanks, .char '(', .many (.one (· != ')')), .char ')', .blanks,
    .orElse (.one fun c => !isBlank c && c != '(') .atEnd]

/-- A range selector followed by an arithmetic operator. -/
def rangeThenOperator : Pattern :=
  .sequence [.char '[', .some (.one (· != ']')), .char ']', .blanks,
    .one fun c => "-+*/%^".toList.contains c]

/-- An aggregation operator with blanks after it; the second part is the word that follows. -/
def operatorThenWord : List Pattern :=
  [.sequence [.edge,
      anyWord ["sum", "avg", "min", "max", "count", "stddev", "stdvar", "topk", "bottomk",
        "quantile"], .someBlanks],
    .some (.one fun c => !isBlank c)]

/-- A grouping keyword as a whole word. -/
def groupingKeyword : Pattern :=
  .sequence [.edge, anyWord ["by", "without"], .edge]

/-- Whether some aggregation operator is followed, after blanks, neither by a round bracket nor by
a grouping keyword. Operators inside a word already looked at are not looked at again. -/
def hasBareAggregation (masked : List Char) : Bool :=
  (findAll operatorThenWord masked).any fun m =>
    let rest := m.part 1
    if rest.head? == some '(' then false
    else
      let word := rest.takeWhile isNameChar
      word != "by".toList && word != "without".toList

/-- What lies before the bracket that opens the round brackets closed by the nearest character of
`behind`, which is read backwards. `depth` brackets are waiting for their partner. -/
def beforeOpening : Nat → List Char → Option (List Char)
  | _, [] => none
  | depth, ')' :: cs => beforeOpening (depth + 1) cs
  | 0, '(' :: cs => beforeOpening 0 cs
  | 1, '(' :: cs => some cs
  | depth + 2, '(' :: cs => beforeOpening (depth + 1) cs
  | depth, _ :: cs => beforeOpening depth cs

/-- Whether the text before a grouping keyword, read backwards, ends in an aggregation: in an
operator, as in `sum by (x) (y)`, or in a call of one, as in `sum(y) by (x)`. -/
def belongsToAggregation (behind : List Char) : Bool :=
  let near := behind.dropWhile isAsciiBlank
  let word? : Option (List Char) :=
    match near with
    | [] => none
    | ')' :: _ => (beforeOpening 0 near).map (List.dropWhile isAsciiBlank)
    | _ => some near
  match word? with
  | none => false
  | some back =>
    let word := lowerAscii (back.takeWhile isNameChar).reverse
    aggregationOperators.any fun operator => operator.toList == word

/-- Whether more curly brackets open than close in a text. -/
def isInBraces (behind : List Char) : Bool :=
  behind.count '}' < behind.count '{'

/-- Whether some grouping keyword outside curly brackets does not belong to an aggregation. -/
def hasDetachedGrouping (masked : List Char) : Bool :=
  (findAll [groupingKeyword] masked).any fun m =>
    !isInBraces m.start.behind && !belongsToAggregation m.start.behind

/-- Whether a masked text has the shape that a rule forbids. The other rules forbid no shape. -/
def breaks (masked : List Char) : Rule → Bool
  | .rangeBeforeGrouping => occurs rangeThenGrouping masked
  | .groupingBeforeRange => occurs groupingInBrackets masked
  | .complementGroupingBrackets => occurs complementInBrackets masked
  | .aggregationBodyWithoutParens => occurs groupedWithoutBody masked
  | .bareAggregation => hasBareAggregation masked
  | .groupingWithoutAggregation => hasDetachedGrouping masked
  | .rangeInArithmetic => occurs rangeThenOperator masked
  | _ => false

/-- The rules about shapes. The first that is broken is the one reported. -/
def shapeRules : List Rule :=
  [.rangeBeforeGrouping, .groupingBeforeRange, .complementGroupingBrackets,
    .aggregationBodyWithoutParens, .bareAggregation, .groupingWithoutAggregation,
    .rangeInArithmetic]

end AskMetrics.Query
