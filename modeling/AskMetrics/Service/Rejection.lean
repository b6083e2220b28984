import AskMetrics.Catalog.Basic
import AskMetrics.Failure
import AskMetrics.Json.Value
import AskMetrics.Redaction
import AskMetrics.Service.ErrorCode

/-!
# Rejections

A rejection is what a client is told when a request is not served: a code, a message, and details
where the client can do something with them. Failures of the backends become rejections here.
Whatever they quote goes through redaction first, so that no credential leaves the service.
-/
namespace AskMetrics.Service

open Generation Prometheus

/-- One field of a request that is wrong. -/
structure FieldError where
  field : String
  message : String
  deriving DecidableEq, Repr

/-- What a client is told beyond code and message. -/
inductive Detail where
  /-- The fields that are wrong. -/
  | fields (errors : List FieldError)
  /-- The metrics that do not exist, and those that do. -/
  | metrics (partition : MetricPartition)
  /-- The model that failed. -/
  | candidate (id : String)
  /-- The models that were called. -/
  | attempted (ids : List String)
  /-- The rule that the last query broke, and the models that were called. -/
  | brokenRule (rule : Query.Rule) (attempted : List String)
  /-- When to come back. -/
  | retryAfter (seconds : Nat)
  deriving DecidableEq, Repr

/-- What to try when metrics are unknown. -/
def unknownMetricsSuggestion : String :=
  "Try rephrasing with CPU, memory, disk, or network terms. Example: \"CPU usage last 15 minutes\"."

/-- The details as they stand in a response. -/
def Detail.toJson : Detail → Json
  | fields errors =>
    .list (errors.map fun e => .record [("field", .str e.field), ("message", .str e.message)])
  | metrics partition =>
    .record [("unknown", .strings partition.unknown), ("known", .strings partition.known),
      ("suggestion", .str unknownMetricsSuggestion)]
  | candidate id => .record [("candidate", .str id)]
  | attempted ids => .record [("attempted", .strings ids)]
  | brokenRule rule ids =>
    .record [("rule", .str rule.code), ("attempted", .strings ids)]
  | retryAfter seconds => .record [("retryAfterSeconds", .nat seconds)]

/-- What a client is told when a request is not served. -/
structure Rejection where
  code : ErrorCode
  message : String
  detail : Option Detail
  deriving DecidableEq, Repr

namespace Rejection

/-- A rejection that has nothing more to say than its code. -/
def ofCode (code : ErrorCode) : Rejection := ⟨code, code.defaultMessage, none⟩

/-- The HTTP status of the response. -/
def status (r : Rejection) : Nat := r.code.status

/-- The line that tells of a rejection in a log. -/
def display (r : Rejection) : String := r.code.name ++ ": " ++ r.message

/-- The request is too vague. -/
def lowIntent : Rejection := ofCode .lowIntent

/-- Fields are wrong. -/
def validation (message : String) (errors : List FieldError) : Rejection :=
  ⟨.validationError, message, if errors.isEmpty then none else some (.fields errors)⟩

/-- One field is wrong. -/
def invalidField (field message : String) : Rejection :=
  validation "Validation failed" [⟨field, message⟩]

/-- There is no such route. -/
def notFound (method path : String) : Rejection :=
  ⟨.notFound, s!"Route {method} {path} not found", none⟩

/-- The client has to wait. -/
def tooManyRequests (seconds : Nat) : Rejection :=
  { ofCode .rateLimitExceeded with detail := some (.retryAfter seconds) }

/-- Something that should not happen. -/
def internal (message : String) : Rejection := ⟨.internalError, message, none⟩

/-- The message when a query names metrics that do not exist. -/
def unknownMetricsMessage (unknown : List String) : String :=
  "Generated query references unknown metric(s): " ++ ", ".intercalate unknown

/-- A query names metrics that do not exist. -/
def unknownMetrics (partition : MetricPartition) : Rejection :=
  ⟨.unknownMetrics, unknownMetricsMessage partition.unknown, some (.metrics partition)⟩

/-! ## Failures of the backends -/

/-- The code and the details for a run that gave no query. -/
def generationParts : GenerationFailure → ErrorCode × Option Detail
  | .notConfigured => (.notConfigured, none)
  | .noCandidates => (.notConfigured, none)
  | .authentication candidate _ => (.aiAuthFailed, some (.candidate candidate))
  | .quotaExhausted candidate _ => (.aiQuotaExceeded, some (.candidate candidate))
  | .overloaded attempted => (.aiOverloaded, some (.attempted attempted))
  | .syntaxExhausted attempted violation =>
    (.syntaxViolation, some (.brokenRule violation.rule attempted))
  | .exhausted attempted _ => (.generationFailed, some (.attempted attempted))
  | .noAnswer _ => (.noAnswer, none)

/-- The rejection for a run that gave no query. -/
def ofGeneration (f : GenerationFailure) : Rejection :=
  let (code, detail) := generationParts f
  ⟨code, redact f.message, detail⟩

/-- The code for a failure of the metrics backend. A refused query is the client's to mend, and so
is anything to which the backend answers with a status that blames the client. -/
def metricsCode (f : MetricsFailure) : ErrorCode :=
  match f with
  | .timedOut _ => .prometheusTimeout
  | .requestFailed status _ =>
    if 400 ≤ status && status < 500 then .prometheusQueryError else .prometheusUnavailable
  | _ => if f.isQueryFault then .prometheusQueryError else .prometheusUnavailable

/-- The rejection for a failure of the metrics backend. -/
def ofMetrics (f : MetricsFailure) : Rejection := ⟨metricsCode f, redact f.message, none⟩

/-! ## Responses -/

/-- A rejection on its own. -/
def toJson (r : Rejection) : Json :=
  .record ([("code", .str r.code.code), ("message", .str r.message)] ++
    Json.optional "details" (r.detail.map (·.toJson)))

/-- The body of the response to a rejected request. -/
def envelope (r : Rejection) : Json :=
  .record [("success", .bool false), ("error", .record (
    [("message", .str r.message), ("code", .str r.code.code), ("statusCode", .nat r.status)] ++
      Json.optional "details" (r.detail.map (·.toJson))))]

end Rejection

end AskMetrics.Service
