import AskMetrics.Text.Case

/-!
# Failed calls and what they mean

A call to a model can fail in six ways. What a failure means for the rest of a run is read from
its status and from its message: a rejected key and an exhausted quota end the run, passing
trouble moves on to the next model, and anything unknown ends the run as well.
-/
namespace AskMetrics.Generation

open AskMetrics.Text

/-- Why a call to a model gave no text. -/
inductive CallFailure where
  | notConfigured
  | requestFailed (provider : String) (status : Nat) (message : String)
  | rateLimited (provider : String) (retryAfterMs : Int) (message : String)
  | timedOut (provider : String) (timeoutMs : Nat)
  | unreachable (provider : String) (reason : String)
  | invalidResponse (provider : String) (reason : String)
  deriving DecidableEq, Repr

namespace CallFailure

/-- The message of a failure. -/
def message : CallFailure → String
  | notConfigured => "No generation backend configured"
  | requestFailed provider status text =>
    s!"Request to {provider} failed with status {status}: {text}"
  | rateLimited provider retryAfterMs text =>
    s!"Rate limited by {provider} (429), retry after {retryAfterMs}ms: {text}"
  | timedOut provider timeoutMs => s!"Request to {provider} timed out after {timeoutMs}ms"
  | unreachable provider reason => s!"Network error talking to {provider}: {reason}"
  | invalidResponse provider reason => s!"Invalid response from {provider}: {reason}"

/-- The HTTP status that a failure reports. -/
def status? : CallFailure → Option Nat
  | requestFailed _ status _ => some status
  | rateLimited .. => some 429
  | _ => none

end CallFailure

/-- What a failure means for the rest of a run. -/
inductive FailureClass where
  /-- The next model is tried. -/
  | retryable
  /-- The key was rejected. -/
  | authentication
  /-- The account is out of quota. -/
  | quotaExhausted
  /-- Something unknown. -/
  | fatal
  deriving DecidableEq, Repr

namespace FailureClass

/-- Whether the next model is tried. -/
def allowsFallback (c : FailureClass) : Bool := c == retryable

/-- The label of a class in counters. -/
def label : FailureClass → String
  | retryable => "retryable"
  | authentication => "authentication"
  | quotaExhausted => "quota_exhausted"
  | fatal => "fatal"

end FailureClass

/-- Whether a text mentions one of some markers. -/
def mentionsAny (markers : List String) (s : List Char) : Bool :=
  markers.any fun marker => mentionsString marker s

/-- Whether a text says that a key was rejected. The two spellings of the key itself count only in
the case in which backends write them. -/
def hasAuthenticationMarker (text : String) : Bool :=
  mentionsAny ["API_KEY", "API key"] text.toList ||
    mentionsAny ["unauthorized", "unauthenticated", "permission denied", "permission_denied",
      "invalid api key"] (lowered text.toList)

/-- Whether a text in lower case says that a model is overloaded. -/
def hasOverloadMarker (low : List Char) : Bool :=
  mentionsAny ["503", "service unavailable", "overloaded"] low

/-- Whether a failure, with its message, means that a key was rejected. -/
def isAuthentication (f : CallFailure) : Bool :=
  f.status? == some 401 || f.status? == some 403 || hasAuthenticationMarker f.message

/-- Whether a failure means that the account is out of quota; `low` is its message in lower
case. -/
def isQuota (f : CallFailure) (low : List Char) : Bool :=
  mentionsString "quota exceeded" low || (f.status? == some 429 && mentionsString "quota" low)

/-- Whether a failure means that a model does not exist. -/
def isModelMissing (f : CallFailure) (low : List Char) : Bool :=
  f.status? == some 404 || mentionsAny ["not found", "not supported"] low ||
    (mentionsString "model" low && mentionsString "not available" low)

/-- Whether a failure is passing by its kind alone. -/
def isPassing : CallFailure → Bool
  | .timedOut .. => true
  | .unreachable .. => true
  | .rateLimited .. => true
  | .requestFailed _ status _ => [500, 502, 503, 504].contains status
  | _ => false

/-- Whether the next model may do better. -/
def isRetryable (f : CallFailure) (low : List Char) : Bool :=
  isPassing f || hasOverloadMarker low ||
    mentionsAny ["try again later", "rate limit", "timeout", "timed out", "connection reset",
      "dns error", "network error"] low ||
    isModelMissing f low

/-- The meaning of a failure. A rejected key goes before an exhausted quota, and that before
passing trouble. -/
def classify (f : CallFailure) : FailureClass :=
  let low := lowered f.message.toList
  if isAuthentication f then .authentication
  else if isQuota f low then .quotaExhausted
  else if isRetryable f low then .retryable
  else .fatal

end AskMetrics.Generation
