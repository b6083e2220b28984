import AskMetrics.Generation.Attempt
import AskMetrics.Prometheus.Failure

/-!
# All failures together

Where failures of several parts meet, each is told by the name of its part in front of its own
message.
-/
namespace AskMetrics

/-- What is wrong with a setting. -/
inductive ConfigFailure where
  | missing (field : String)
  | invalid (field value reason : String)
  deriving DecidableEq, Repr

/-- The message of a wrong setting. -/
def ConfigFailure.message : ConfigFailure → String
  | missing field => s!"Missing required configuration field: {field}"
  | invalid field value reason => s!"Invalid value for {field}: {value} - {reason}"

/-- A failure of any part. -/
inductive Failure where
  | call (f : Generation.CallFailure)
  | generation (f : Generation.GenerationFailure)
  | violation (v : Query.Violation)
  | metrics (f : Prometheus.MetricsFailure)
  | config (f : ConfigFailure)
  deriving DecidableEq, Repr

namespace Failure

/-- The message of the part that failed. -/
def ownMessage : Failure → String
  | call f => f.message
  | generation f => f.message
  | violation v => v.message
  | metrics f => f.message
  | config f => f.message

/-- The name of the part that failed. -/
def part : Failure → String
  | call _ => "LLM error"
  | generation _ => "Generation error"
  | violation _ => "Syntax error"
  | metrics _ => "Metrics backend error"
  | config _ => "Config error"

/-- The name of the part in front of its message. -/
def message (f : Failure) : String := f.part ++ ": " ++ f.ownMessage

end Failure

end AskMetrics
