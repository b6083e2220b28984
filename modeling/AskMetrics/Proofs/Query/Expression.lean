import AskMetrics.Query.Metrics
import AskMetrics.Query.Shape
import Mathlib.Data.Bool.AllAny
import Mathlib.Data.List.Basic

/-!
# Well-formed expressions

The prompt asks for queries of a small language: selectors, functions over a range, aggregations
with and without a grouping, round brackets and arithmetic. Its expressions are trees here, and the
parts that carry a condition carry its proof, so that each tree is an expression of the language.

## Main definitions

* `MetricName`, `LabelName`, `LabelValue`, `Selector` : what selects time series.
* `FunctionName`, `Duration`, `Aggregation`, `Grouping`, `Sign`, `Numeral` : the other parts.
* `Expr` : the expressions.
* `Expr.render` : the text of an expression.
* `Expr.metrics` : the metric names in an expression, from left to right.
-/
namespace AskMetrics.Query

open AskMetrics.Text

/-! ## Names and values -/

/-- A letter or an underscore, and then letters, digits and underscores. -/
def isIdentifier : List Char → Bool
  | [] => false
  | u :: x => (u.isAlpha || u == '_') && x.all isNameChar

/-- The name of a metric that can be told apart from vocabulary and from plain words. -/
structure MetricName where
  text : List Char
  identifier : isIdentifier text = true
  not_plain : text.all Char.isAlpha = false
  not_reserved : ∀ name ∈ functionNames ++ modifierNames, lowerAscii text ≠ name.toList

/-- The name of a label, which is no grouping keyword. -/
structure LabelName where
  text : List Char
  identifier : isIdentifier text = true
  ne_by : text ≠ "by".toList
  ne_without : text ≠ "without".toList

/-- The value of a label, before its quotes and backslashes are escaped. -/
structure LabelValue where
  text : List Char
  not_blank : ∀ u ∈ text, isBlank u = false
  not_backtick : '\x60' ∉ text

/-- A character inside double quotes. -/
def escape (u : Char) : List Char :=
  if u = '"' ∨ u = '\\' then ['\\', u] else [u]

/-- A value between double quotes. -/
def LabelValue.quoted (v : LabelValue) : List Char :=
  '"' :: (v.text.flatMap escape ++ ['"'])

/-- A label with the value it must have. -/
structure Matcher where
  label : LabelName
  value : LabelValue

/-- The text of a matcher: `label="value"`. -/
def Matcher.render (m : Matcher) : List Char :=
  m.label.text ++ '=' :: m.value.quoted

/-- The text of some matchers: `{a="b",c="d"}`. -/
def renderMatchers (ms : List Matcher) : List Char :=
  '\x7b' :: (joinWith [','] (ms.map Matcher.render) ++ ['\x7d'])

/-- A metric, optionally with label matchers. -/
structure Selector where
  metric : MetricName
  matchers : Option (List Matcher)

/-- The text of a selector. -/
def Selector.render (s : Selector) : List Char :=
  s.metric.text ++ (s.matchers.map renderMatchers).getD []

/-! ## Functions, groupings and numbers -/

/-- A known function that is no aggregation operator. -/
structure FunctionName where
  text : String
  known : text ∈ functionNames
  not_aggregation : text ∉ aggregationOperators

/-- A length of time: digits and a unit. -/
structure Duration where
  digits : List Char
  unit : Char
  digits_ne_nil : digits ≠ []
  isDigit : ∀ u ∈ digits, u.isDigit = true
  isUnit : unit ∈ "smhdwy".toList

/-- The text of a range: `[5m]`. -/
def Duration.render (d : Duration) : List Char :=
  '[' :: (d.digits ++ [d.unit, ']'])

/-- The aggregation operators without a parameter. -/
inductive Aggregation where
  | sum
  | avg
  | min
  | max
  | count
  | stddev
  | stdvar
  deriving DecidableEq, Repr

/-- The name of an aggregation operator. -/
def Aggregation.name : Aggregation → String
  | sum => "sum"
  | avg => "avg"
  | min => "min"
  | max => "max"
  | count => "count"
  | stddev => "stddev"
  | stdvar => "stdvar"

/-- Whether a grouping names the labels that stay or those that go. -/
inductive Keeping where
  | labels
  | others
  deriving DecidableEq, Repr

/-- The keyword of a grouping. -/
def Keeping.keyword : Keeping → String
  | labels => "by"
  | others => "without"

/-- A grouping keyword with its labels. -/
structure Grouping where
  keeping : Keeping
  labels : List LabelName

/-- The text of a grouping: `by (a, b)`. -/
def Grouping.render (g : Grouping) : List Char :=
  g.keeping.keyword.toList ++
    ' ' :: '(' :: (joinWith [',', ' '] (g.labels.map LabelName.text) ++ [')'])

/-- The arithmetic operators. -/
inductive Sign where
  | plus
  | minus
  | times
  | slash
  deriving DecidableEq, Repr

/-- The character of an operator. -/
def Sign.char : Sign → Char
  | plus => '+'
  | minus => '-'
  | times => '*'
  | slash => '/'

/-- The text of an operator between single spaces. -/
def Sign.render (o : Sign) : List Char := [' ', o.char, ' ']

/-- A decimal integer. -/
structure Numeral where
  negative : Bool
  digits : List Char
  digits_ne_nil : digits ≠ []
  isDigit : ∀ u ∈ digits, u.isDigit = true

/-- The text of a decimal integer. -/
def Numeral.render (n : Numeral) : List Char :=
  (if n.negative then ['-'] else []) ++ n.digits

/-! ## Expressions -/

/-- The expressions of the language. -/
inductive Expr where
  /-- `metric{a="b"}` -/
  | select (s : Selector)
  /-- `rate(metric{a="b"}[5m])` -/
  | call (f : FunctionName) (s : Selector) (d : Duration)
  /-- `sum(e)` -/
  | aggregate (a : Aggregation) (e : Expr)
  /-- `sum by (l) (e)` -/
  | groupedBefore (a : Aggregation) (g : Grouping) (e : Expr)
  /-- `sum(e) by (l)` -/
  | groupedAfter (a : Aggregation) (e : Expr) (g : Grouping)
  /-- `(e)` -/
  | parens (e : Expr)
  /-- `e + f` -/
  | binary (e : Expr) (o : Sign) (f : Expr)
  /-- `100 * e` -/
  | scaledLeft (n : Numeral) (o : Sign) (e : Expr)
  /-- `e * 100` -/
  | scaledRight (e : Expr) (o : Sign) (n : Numeral)

namespace Expr

/-- The text of an expression. -/
def render : Expr → List Char
  | select s => s.render
  | call f s d => f.text.toList ++ '(' :: (s.render ++ d.render ++ [')'])
  | aggregate a e => a.name.toList ++ '(' :: (e.render ++ [')'])
  | groupedBefore a g e =>
    a.name.toList ++ ' ' :: (g.render ++ ' ' :: '(' :: (e.render ++ [')']))
  | groupedAfter a e g => a.name.toList ++ '(' :: (e.render ++ ')' :: ' ' :: g.render)
  | parens e => '(' :: (e.render ++ [')'])
  | binary e o f => e.render ++ o.render ++ f.render
  | scaledLeft n o e => n.render ++ o.render ++ e.render
  | scaledRight e o n => e.render ++ o.render ++ n.render

/-- The metric names in an expression, from left to right. -/
def metrics : Expr → List MetricName
  | select s => [s.metric]
  | call _ s _ => [s.metric]
  | aggregate _ e => e.metrics
  | groupedBefore _ _ e => e.metrics
  | groupedAfter _ e _ => e.metrics
  | parens e => e.metrics
  | binary e _ f => e.metrics ++ f.metrics
  | scaledLeft _ _ e => e.metrics
  | scaledRight e _ _ => e.metrics

end Expr

/-! ## Small facts about the parts -/

theorem exists_eq_cons_of_isIdentifier {x : List Char} (h : isIdentifier x = true) :
    ∃ u y, x = u :: y ∧ (u.isAlpha = true ∨ u = '_') ∧ ∀ v ∈ y, isNameChar v = true := by
  cases x with
  | nil => simp [isIdentifier] at h
  | cons u y => exact ⟨u, y, rfl, by simpa [isIdentifier] using h⟩

theorem isNameChar_of_isIdentifier {x : List Char} (h : isIdentifier x = true) :
    ∀ u ∈ x, isNameChar u = true := by
  obtain ⟨u, y, rfl, hu, hy⟩ := exists_eq_cons_of_isIdentifier h
  intro v hv
  rcases List.mem_cons.mp hv with rfl | hv
  · rcases hu with hu | rfl
    · simp [isNameChar, Char.isAlphanum, hu]
    · decide
  · exact hy v hv

theorem lowerAscii_of_mem_vocabulary :
    ∀ name ∈ functionNames ++ modifierNames, lowerAscii name.toList = name.toList := by
  decide +kernel

/-- A metric has no name of the vocabulary. -/
theorem MetricName.ne_of_mem_vocabulary (m : MetricName) {name : String}
    (h : name ∈ functionNames ++ modifierNames) : m.text ≠ name.toList := by
  intro heq
  apply m.not_reserved name h
  rw [heq, lowerAscii_of_mem_vocabulary name h]

theorem MetricName.isMetricLike (m : MetricName) : isMetricLike m.text = true := by
  have hreserved : isReserved m.text = false := by
    rw [isReserved, List.any_eq_false]
    intro name hname
    simpa using fun h => m.not_reserved name hname h.symm
  simp [Query.isMetricLike, hreserved, m.not_plain]

theorem isIdentifier_of_mem_functionNames {name : String} (h : name ∈ functionNames) :
    isIdentifier name.toList = true := by
  have hall : ∀ name ∈ functionNames, isIdentifier name.toList = true := by decide +kernel
  exact hall name h

theorem isNameChar_of_mem_functionNames {name : String} (h : name ∈ functionNames) :
    ∀ u ∈ name.toList, isNameChar u = true :=
  isNameChar_of_isIdentifier (isIdentifier_of_mem_functionNames h)

theorem FunctionName.isNameChar (f : FunctionName) : ∀ u ∈ f.text.toList, isNameChar u = true :=
  isNameChar_of_mem_functionNames f.known

theorem Aggregation.mem_functionNames (a : Aggregation) : a.name ∈ functionNames := by
  cases a <;> decide

theorem Aggregation.isNameChar (a : Aggregation) : ∀ u ∈ a.name.toList, isNameChar u = true :=
  isNameChar_of_mem_functionNames a.mem_functionNames

theorem LabelName.isNameChar (l : LabelName) : ∀ u ∈ l.text, isNameChar u = true :=
  isNameChar_of_isIdentifier l.identifier

theorem MetricName.isNameChar (m : MetricName) : ∀ u ∈ m.text, isNameChar u = true :=
  isNameChar_of_isIdentifier m.identifier

theorem Keeping.isNameChar (k : Keeping) : ∀ u ∈ k.keyword.toList, isNameChar u = true := by
  cases k <;> exact List.all_eq_true.mp (by decide)

theorem Duration.isNameChar_unit (d : Duration) : isNameChar d.unit = true := by
  have hall : "smhdwy".toList.all Text.isNameChar = true := by decide
  exact List.all_eq_true.mp hall d.unit d.isUnit

end AskMetrics.Query
