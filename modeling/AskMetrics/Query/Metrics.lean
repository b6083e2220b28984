import AskMetrics.Text.Pattern

/-!
# Metric names in a query

A query is checked against the metrics that exist. The names it might mean are found without
parsing it: literals, label matchers and label lists are blanked, and of the identifiers left
those are kept that are neither vocabulary nor plain words.
-/
namespace AskMetrics.Query

open AskMetrics.Text

/-- The functions and operators that are called with round brackets. -/
def functionNames : List String :=
  ["sum", "avg", "min", "max", "count", "stddev", "stdvar", "topk", "bottomk", "quantile",
    "count_values", "group", "rate", "irate", "increase", "delta", "idelta", "deriv", "resets",
    "changes", "predict_linear", "holt_winters", "avg_over_time", "min_over_time",
    "max_over_time", "sum_over_time", "count_over_time", "quantile_over_time",
    "stddev_over_time", "stdvar_over_time", "last_over_time", "present_over_time",
    "absent_over_time", "histogram_quantile", "abs", "absent", "ceil", "floor", "round", "exp",
    "sqrt", "clamp", "clamp_max", "clamp_min", "ln", "log2", "log10", "label_replace",
    "label_join", "sort", "sort_desc", "scalar", "vector", "time", "timestamp", "day_of_month",
    "day_of_week", "days_in_month", "hour", "minute", "month", "year"]

/-- The words that modify or join expressions. -/
def modifierNames : List String :=
  ["by", "without", "on", "ignoring", "group_left", "group_right", "bool", "and", "or", "unless",
    "offset"]

/-- Whether a word belongs to the vocabulary of the query language, in any letter case. -/
def isReserved (word : List Char) : Bool :=
  (functionNames ++ modifierNames).any fun name => name.toList == lowerAscii word

/-- A string literal between two of the given quotes, where a backslash takes the next character
with it unless that is a line feed. -/
def quotedLiteral (quote : Char) : Pattern :=
  .sequence [.char quote,
    .many (.orElse (.one fun c => c != quote && c != '\\')
      (.andThen (.char '\\') (.one (· != '\n')))),
    .char quote]

/-- A closed string literal. In one between backticks a backslash is a character like others. -/
def literalPattern : Pattern :=
  .oneOf [quotedLiteral '"', quotedLiteral '\'',
    .sequence [.char '\x60', .many (.one (· != '\x60')), .char '\x60']]

/-- Label matchers: everything from a curly bracket to the next closing one. -/
def matchersPattern : Pattern :=
  .sequence [.char '\x7b', .many (.one (· != '\x7d')), .char '\x7d']

/-- A keyword that takes labels, with the labels. -/
def labelListPattern : Pattern :=
  .sequence [.edge,
    .oneOf (["by", "without", "on", "ignoring", "group_left", "group_right"].map .literal),
    .blanks, .char '(', .many (.one (· != ')')), .char ')']

/-- A run of name characters that starts like a name. -/
def identifierPattern : Pattern :=
  .andThen (.one isIdentStart) (.many (.one isIdentChar))

/-- Replaces every match of a shape by one space. -/
def blankOut (p : Pattern) (s : List Char) : List Char :=
  replaceAll [p] (fun _ => [' ']) s

/-- A query without its literals, label matchers and label lists. -/
def scrub (s : List Char) : List Char :=
  blankOut labelListPattern (blankOut matchersPattern (blankOut literalPattern s))

/-- Whether a match is the end of a number or duration, as the `m` of `5m` is. -/
def continuesNumber (m : Match) : Bool :=
  m.start.behind.head?.any fun c => c.isDigit || c == '.'

/-- Whether an identifier can be the name of a metric: it is not vocabulary, and something else
than letters is in it, since plain words are usually noise. -/
def isMetricLike (word : List Char) : Bool :=
  !isReserved word && !word.all Char.isAlpha

/-- The first occurrence of each member of a list, in order. -/
def distinct {α : Type} [BEq α] (xs : List α) : List α :=
  xs.foldl (fun seen x => if seen.contains x then seen else seen ++ [x]) []

/-- The names in a query that look like metrics, each once, in order of first appearance. -/
def metricNames (s : List Char) : List (List Char) :=
  distinct (((findAll [identifierPattern] (scrub s)).filter fun m =>
    !continuesNumber m && isMetricLike m.text).map Match.text)

end AskMetrics.Query
