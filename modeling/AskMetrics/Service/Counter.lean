/-!
# Counters

The service counts what it does. A counter is a family with a text that explains it, and counts
separately for each combination of label values. What has been counted is kept as the list of all
increments; the value of a counter is the number of its increments.
-/
namespace AskMetrics.Service

/-- Something that is counted. -/
inductive Counter where
  /-- A request that was answered. -/
  | request (method path : String) (status : Nat)
  /-- A request whose duration was measured. -/
  | duration (method path : String)
  /-- A call to a model. -/
  | attempt (candidate outcome : String)
  /-- A question that was asked. -/
  | question (outcome : String)
  /-- A listing of metric names. -/
  | refresh (status : String)
  deriving DecidableEq, Repr

/-- A family of counters. -/
structure Family where
  name : String
  help : String
  kind : String
  deriving DecidableEq, Repr

/-- The families in the order in which they are shown. -/
def families : List Family :=
  [⟨"sextant_catalog_refreshes_total", "Metric catalog refreshes by status", "counter"⟩,
    ⟨"sextant_generation_attempts_total", "Generation candidate calls by outcome", "counter"⟩,
    ⟨"sextant_http_request_duration_seconds", "HTTP request duration in seconds", "histogram"⟩,
    ⟨"sextant_http_requests_total", "Total number of HTTP requests", "counter"⟩,
    ⟨"sextant_translations_total", "Natural-language translation requests by outcome", "counter"⟩]

namespace Counter

/-- The name of the family. -/
def family : Counter → String
  | request .. => "sextant_http_requests_total"
  | duration .. => "sextant_http_request_duration_seconds"
  | attempt .. => "sextant_generation_attempts_total"
  | question .. => "sextant_translations_total"
  | refresh .. => "sextant_catalog_refreshes_total"

/-- The name of the series. Of a duration the number of measurements is counted. -/
def seriesName : Counter → String
  | duration .. => "sextant_http_request_duration_seconds_count"
  | c => c.family

/-- The labels in alphabetical order. -/
def labels : Counter → List (String × String)
  | request method path status =>
    [("method", method), ("path", path), ("status", toString status)]
  | duration method path => [("method", method), ("path", path)]
  | attempt candidate outcome => [("candidate", candidate), ("outcome", outcome)]
  | question outcome => [("outcome", outcome)]
  | refresh status => [("status", status)]

/-- A character of a label value. -/
def escapeLabel (c : Char) : List Char :=
  if c == '\\' then ['\\', '\\']
  else if c == '"' then ['\\', '"']
  else if c == '\n' then ['\\', 'n']
  else [c]

/-- A label with its value in quotes. -/
def labelText (label : String × String) : String :=
  label.1 ++ "=\"" ++ .ofList (label.2.toList.flatMap escapeLabel) ++ "\""

/-- A counter as it is shown, without its value. -/
def series (c : Counter) : String :=
  c.seriesName ++ "\x7b" ++ ",".intercalate (c.labels.map labelText) ++ "\x7d"

end Counter

/-- What has been counted: all increments, in order. -/
abbrev Counters := List Counter

namespace Counters

/-- The value of a counter. -/
def value (counters : Counters) (c : Counter) : Nat := counters.count c

/-- The lines that explain a family. -/
def header (f : Family) : List String :=
  [s!"# HELP {f.name} {f.help}", s!"# TYPE {f.name} {f.kind}"]

/-- The lines of the counters of a family. -/
def lines (counters : Counters) (f : Family) : List String :=
  let distinct := (counters.filter fun c => c.family == f.name).eraseDups
  (distinct.map fun c => c.series ++ " " ++ toString (counters.value c)).mergeSort

/-- The counts as text: each family is explained and then listed. -/
def exposition (counters : Counters) : String :=
  String.join ((families.flatMap fun f => header f ++ counters.lines f).map (· ++ "\n"))

end Counters

end AskMetrics.Service
