import AskMetrics.Text.Case

/-!
# Failures of the metrics backend

The metrics backend either refuses a query, which is for the caller to mend, or fails to answer.
Which of the two is told from the text it sends back.
-/
namespace AskMetrics.Prometheus

open AskMetrics.Text

/-- Why the metrics backend gave no data. -/
inductive MetricsFailure where
  | requestFailed (status : Nat) (message : String)
  | invalidSyntax (message : String)
  | typeMismatch (message : String)
  | unexpectedToken (message : String)
  | timedOut (seconds : Nat)
  | unreachable (reason : String)
  | invalidResponse (reason : String)
  deriving DecidableEq, Repr

namespace MetricsFailure

/-- The message of a failure. -/
def message : MetricsFailure → String
  | requestFailed status text => s!"Prometheus returned {status}: {text}"
  | invalidSyntax text => s!"Invalid PromQL syntax: {text}"
  | typeMismatch text =>
    s!"PromQL type error: {text}. Check that operations are between compatible types."
  | unexpectedToken text =>
    s!"PromQL syntax error: {text}. Check query structure and operators."
  | timedOut seconds => s!"Prometheus query timed out after {seconds} seconds"
  | unreachable reason => s!"Failed to reach Prometheus: {reason}"
  | invalidResponse reason => s!"Invalid response from Prometheus: {reason}"

/-- The failure that a text sent back with a status stands for. -/
def ofMessage (status : Nat) (text : String) : MetricsFailure :=
  let s := text.toList
  if mentionsString "parse error" s then invalidSyntax text
  else if mentionsString "binary expression" s then typeMismatch text
  else if mentionsString "unexpected" s then unexpectedToken text
  else requestFailed status text

/-- Whether the query was refused, rather than the backend failing. -/
def isQueryFault : MetricsFailure → Bool
  | invalidSyntax _ => true
  | typeMismatch _ => true
  | unexpectedToken _ => true
  | _ => false

end MetricsFailure

end AskMetrics.Prometheus
