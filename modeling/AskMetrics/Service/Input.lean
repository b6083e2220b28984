import AskMetrics.Prometheus.Data
import AskMetrics.Service.Pipeline
import AskMetrics.Text.Word

/-!
# Inputs of the routes

What a client sends is read loosely and checked afterwards, so that all wrong fields can be
reported together, in a fixed order.
-/
namespace AskMetrics.Service

open AskMetrics.Text Prometheus
open Json (Decoded RecordField asRecord asString asOption asInt)

/-- The fewest characters of a question. -/
def minRequestLength : Nat := 3

/-- The most characters of a question. -/
def maxRequestLength : Nat := 500

/-- The longest window in minutes: a week. -/
def maxRequestWindow : Nat := 10080

/-! ## Questions -/

/-- The body of a question. -/
structure QuestionInput where
  query : Option String
  windowMinutes : Option Int
  deriving DecidableEq, Repr

namespace QuestionInput

/-- The parts of a body that have been read. -/
structure Draft where
  query : Option (Option String)
  windowMinutes : Option (Option Int)

/-- The parts of a body. -/
def fields : List (RecordField Draft) :=
  [.of "query" false (·.query) (fun d a => { d with query := some a }) (asOption asString),
    .of "lookback_minutes" false (·.windowMinutes) (fun d a => { d with windowMinutes := some a })
      (asOption asInt)]

/-- Reads a body. -/
def ofJson (j : Json) : Decoded QuestionInput := do
  let d ← asRecord fields ⟨none, none⟩ j
  .ok ⟨d.query.getD none, d.windowMinutes.getD none⟩

/-- The text without blanks at the edges. -/
def text (input : QuestionInput) : String := trimString (input.query.getD "")

/-- What is wrong with the text. -/
def queryErrors (input : QuestionInput) : List FieldError :=
  if input.query.isNone then [⟨"query", "Query is required"⟩]
  else if input.text.length < minRequestLength then
    [⟨"query", "Query must be at least 3 characters"⟩]
  else if input.text.length > maxRequestLength then
    [⟨"query", "Query must not exceed 500 characters"⟩]
  else []

/-- Whether a window is of an allowed length. -/
def isAllowedWindow (minutes : Int) : Bool := 1 ≤ minutes && minutes ≤ maxRequestWindow

/-- What is wrong with the window. -/
def windowErrors (input : QuestionInput) : List FieldError :=
  match input.windowMinutes with
  | none => []
  | some minutes =>
    if isAllowedWindow minutes then []
    else [⟨"lookback_minutes", "Lookback must be between 1 and 10080 minutes"⟩]

/-- The request that a body holds, if nothing is wrong with it. -/
def check (input : QuestionInput) : Except Rejection Question :=
  let errors := input.queryErrors ++ input.windowErrors
  if errors.isEmpty then .ok ⟨input.text, input.windowMinutes.map Int.toNat⟩
  else .error (.validation "Validation failed" errors)

end QuestionInput

/-! ## Queries -/

/-- A parameter without blanks at the edges, if anything is left of it. -/
def presentText (parameter : Option String) : Option String :=
  (parameter.map trimString).filter (!·.isEmpty)

/-- The time in seconds that a parameter is. -/
def timestamp? (parameter : Option String) : Option Double := do
  let d ← Double.read? (trim (← parameter).toList)
  if d.isFinite then some d else none

/-- Whether a text is a number of seconds, minutes, hours or days, in the digits of any script. -/
def isValidStep (s : List Char) : Bool :=
  let number := s.takeWhile isDecimal
  let unit := List.dropWhile isDecimal s
  !number.isEmpty && (unit == ['s'] || unit == ['m'] || unit == ['h'] || unit == ['d'])

/-- The parameters of a query over a range. -/
structure RangeInput where
  query : Option String
  start : Option String
  finish : Option String
  step : Option String
  deriving DecidableEq, Repr

namespace RangeInput

/-- The error of a field that is needed, unless it is there. -/
def missing {α : Type} (field message : String) (value : Option α) : List FieldError :=
  if value.isNone then [⟨field, message⟩] else []

/-- What is wrong with the step. -/
def stepErrors (step : Option String) : List FieldError :=
  match step with
  | some s =>
    if isValidStep s.toList then [] else [⟨"step", "Step must be in format: 15s, 1m, 1h, etc."⟩]
  | none => []

/-- All that is wrong. -/
def errors (input : RangeInput) : List FieldError :=
  missing "query" "PromQL query is required" (presentText input.query) ++
    missing "start" "Start must be a valid timestamp" (timestamp? input.start) ++
    missing "end" "End must be a valid timestamp" (timestamp? input.finish) ++
    stepErrors (presentText input.step)

/-- The query that the parameters make, if nothing is wrong with them. -/
def check (input : RangeInput) : Except Rejection RangeQuery :=
  match presentText input.query, timestamp? input.start, timestamp? input.finish with
  | some query, some start, some finish =>
    if input.errors.isEmpty then
      .ok ⟨query, start, finish, (presentText input.step).getD defaultStep⟩
    else .error (.validation "Invalid query parameters" input.errors)
  | _, _, _ => .error (.validation "Invalid query parameters" input.errors)

end RangeInput

/-- The parameters of a query at this instant. -/
structure InstantInput where
  query : Option String
  deriving DecidableEq, Repr

/-- The query that the parameters make, if there is one. -/
def InstantInput.check (input : InstantInput) : Except Rejection String :=
  match presentText input.query with
  | some query => .ok query
  | none => .error ⟨.validationError, "Query parameter is required", none⟩

end AskMetrics.Service
