import AskMetrics.Request.Intent

/-!
# Error codes

Every rejection of the service carries one of these codes. The code fixes the HTTP status and the
message of a rejection that has nothing more to say.
-/
namespace AskMetrics.Service

/-- Why a request was rejected. -/
inductive ErrorCode where
  /-- The request names no metric. -/
  | lowIntent
  /-- The model declined to answer. -/
  | noAnswer
  /-- No model gave a query that keeps the rules. -/
  | syntaxViolation
  /-- The query names metrics that do not exist. -/
  | unknownMetrics
  /-- The generation backend rejected the key. -/
  | aiAuthFailed
  /-- The account at the generation backend is out of quota. -/
  | aiQuotaExceeded
  /-- All models are overloaded. -/
  | aiOverloaded
  /-- No model gave a query, for another reason. -/
  | generationFailed
  /-- There is no key, or no model to call. -/
  | notConfigured
  /-- The body or the parameters are wrong. -/
  | validationError
  /-- There is no such route. -/
  | notFound
  /-- The client sends too many requests. -/
  | rateLimitExceeded
  /-- The metrics backend refused the query. -/
  | prometheusQueryError
  /-- The metrics backend took too long. -/
  | prometheusTimeout
  /-- The metrics backend cannot be reached or makes no sense. -/
  | prometheusUnavailable
  /-- Anything else. -/
  | internalError
  deriving DecidableEq, Repr

namespace ErrorCode

/-- All codes. -/
def all : List ErrorCode :=
  [lowIntent, noAnswer, syntaxViolation, unknownMetrics, aiAuthFailed, aiQuotaExceeded,
    aiOverloaded, generationFailed, notConfigured, validationError, notFound, rateLimitExceeded,
    prometheusQueryError, prometheusTimeout, prometheusUnavailable, internalError]

/-- The name of a code in a message. -/
def name : ErrorCode → String
  | lowIntent => "LowIntent"
  | noAnswer => "NoAnswer"
  | syntaxViolation => "SyntaxViolation"
  | unknownMetrics => "UnknownMetrics"
  | aiAuthFailed => "AiAuthFailed"
  | aiQuotaExceeded => "AiQuotaExceeded"
  | aiOverloaded => "AiOverloaded"
  | generationFailed => "GenerationFailed"
  | notConfigured => "NotConfigured"
  | validationError => "ValidationError"
  | notFound => "NotFound"
  | rateLimitExceeded => "RateLimitExceeded"
  | prometheusQueryError => "PrometheusQueryError"
  | prometheusTimeout => "PrometheusTimeout"
  | prometheusUnavailable => "PrometheusUnavailable"
  | internalError => "InternalError"

/-- The spelling of a code in a response. -/
def code : ErrorCode → String
  | lowIntent => "LOW_INTENT"
  | noAnswer => "NO_ANSWER"
  | syntaxViolation => "SYNTAX_VIOLATION"
  | unknownMetrics => "UNKNOWN_METRICS"
  | aiAuthFailed => "AI_AUTH_FAILED"
  | aiQuotaExceeded => "AI_QUOTA_EXCEEDED"
  | aiOverloaded => "AI_OVERLOADED"
  | generationFailed => "GENERATION_FAILED"
  | notConfigured => "NOT_CONFIGURED"
  | validationError => "VALIDATION_ERROR"
  | notFound => "NOT_FOUND"
  | rateLimitExceeded => "RATE_LIMIT_EXCEEDED"
  | prometheusQueryError => "PROMETHEUS_QUERY_ERROR"
  | prometheusTimeout => "PROMETHEUS_TIMEOUT"
  | prometheusUnavailable => "PROMETHEUS_UNAVAILABLE"
  | internalError => "INTERNAL_ERROR"

/-- The code with a given spelling. -/
def ofCode? (s : String) : Option ErrorCode := all.find? fun c => c.code == s

/-- The HTTP status of a rejection. -/
def status : ErrorCode → Nat
  | lowIntent => 422
  | noAnswer => 422
  | syntaxViolation => 422
  | unknownMetrics => 422
  | aiAuthFailed => 401
  | aiQuotaExceeded => 429
  | aiOverloaded => 503
  | generationFailed => 500
  | notConfigured => 503
  | validationError => 400
  | notFound => 404
  | rateLimitExceeded => 429
  | prometheusQueryError => 400
  | prometheusTimeout => 504
  | prometheusUnavailable => 502
  | internalError => 500

/-- The message of a rejection that has nothing more to say. -/
def defaultMessage : ErrorCode → String
  | lowIntent => Request.lowIntentMessage
  | noAnswer => "The request could not be mapped to a PromQL query"
  | syntaxViolation => "Generated query failed syntax validation"
  | unknownMetrics => "Generated query references unknown metrics"
  | aiAuthFailed => "Generation backend rejected the configured credentials"
  | aiQuotaExceeded => "Generation API quota exceeded. Please try again later."
  | aiOverloaded => "All generation candidates are currently overloaded"
  | generationFailed => "Failed to generate a PromQL query"
  | notConfigured => "Generation backend is not configured"
  | validationError => "Validation failed"
  | notFound => "Route not found"
  | rateLimitExceeded => "Too many requests, please try again later."
  | prometheusQueryError => "Prometheus rejected the query"
  | prometheusTimeout => "Prometheus query timed out"
  | prometheusUnavailable => "Prometheus is unavailable"
  | internalError => "An unexpected error occurred"

end ErrorCode

end AskMetrics.Service
