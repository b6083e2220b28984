import AskMetrics.Failure
import AskMetrics.Http.Exchange
import AskMetrics.Prometheus.Backend
import AskMetrics.Redaction
import AskMetrics.Service.Environment

/-!
# The metrics client

The client asks the metrics backend over HTTP and unwraps its answers. An answer that is no
success is a failure told by its text.
-/
namespace AskMetrics.Prometheus

open AskMetrics.Text Http
open Json (Decoded asList asString)
open Service (Variables)

/-- The address and the time limits. -/
structure ClientConfig where
  baseUrl : String
  /-- The time limit of a query in milliseconds. -/
  queryTimeoutMs : Nat
  /-- The time limit of a look whether the backend is up, in milliseconds. -/
  healthTimeoutMs : Nat
  deriving DecidableEq, Repr

namespace ClientConfig

/-- The address unless another is given. -/
def standardBaseUrl : String := "http://localhost:9090"

/-- The settings with an address. Slashes at its end are left out. -/
def ofBaseUrl (url : String) : ClientConfig where
  baseUrl := .ofList (url.toList.reverse.dropWhile (· == '/')).reverse
  queryTimeoutMs := 10000
  healthTimeoutMs := 3000

/-- Whether an address is one for HTTP. -/
def isHttp (url : String) : Bool :=
  "http://".toList.isPrefixOf url.toList || "https://".toList.isPrefixOf url.toList

/-- The settings that the variables make, unless the address is none for HTTP. -/
def ofVariables (vars : Variables) : Except ConfigFailure ClientConfig :=
  let url := ((vars "PROMETHEUS_URL").map trimString).filter (!·.isEmpty)
  let config := ofBaseUrl (url.getD standardBaseUrl)
  if isHttp config.baseUrl then
    let timeout := (vars.positive? "SEXTANT_PROMETHEUS_TIMEOUT_SECS" max64).map (· * 1000)
    .ok { config with queryTimeoutMs := timeout.getD config.queryTimeoutMs }
  else
    .error (.invalid "PROMETHEUS_URL" config.baseUrl "must start with http:// or https://")

end ClientConfig

/-! ## Responses -/

/-- The failure that a response of another status than success stands for. -/
def interpretFailure (r : Response) : MetricsFailure :=
  let told := (Json.parse ErrorBody.ofJson r.body).toOption.bind (·.error)
  .ofMessage r.status (told.getD r.body)

/-- The data or the failure that a successful response stands for. -/
def interpretSuccess {α : Type} (data : Json → Decoded α) (r : Response) :
    Except MetricsFailure α :=
  match Json.parse (Answer.ofJson data) r.body with
  | .error _ => .error (.invalidResponse "malformed answer")
  | .ok answer =>
    if !answer.isSuccess then
      .error (.ofMessage r.status (answer.error.getD "Prometheus query failed"))
    else match answer.data with
      | some d => .ok d
      | none => .error (.invalidResponse "response has no data")

/-- The data or the failure that a response stands for. -/
def interpret {α : Type} (data : Json → Decoded α) (r : Response) : Except MetricsFailure α :=
  if r.isSuccess then interpretSuccess data r else .error (interpretFailure r)

/-! ## Calls -/

/-- The failure when there is no response. -/
def transportFailure (c : ClientConfig) : TransportFault → MetricsFailure
  | .timedOut => .timedOut (c.queryTimeoutMs / 1000)
  | .failed reason => .unreachable (redact reason)

/-- The request for a path with a form. -/
def getRequest (c : ClientConfig) (path : String) (form : List (String × String)) :
    Except TransportFault Request := do
  let url ← readUrl (c.baseUrl ++ path)
  let target ← (url.withForm form).target
  return { method := "GET", target, headers := [], body := "" }

/-- Asks for data. -/
def fetch {σ α : Type} (transport : Transport σ) (c : ClientConfig) (data : Json → Decoded α)
    (request : Except TransportFault Request) (s : σ) : Except MetricsFailure α × σ :=
  match send transport c.queryTimeoutMs request s with
  | (.error fault, s) => (.error (transportFailure c fault), s)
  | (.ok response, s) => (interpret data response, s)

/-- The form of a query over a range. -/
def rangeForm (q : RangeQuery) : List (String × String) :=
  [("query", q.query), ("start", q.start.plain), ("end", q.finish.plain), ("step", q.step)]

/-- The client as a metrics backend. -/
def backend {σ : Type} (transport : Transport σ) (c : ClientConfig) : MetricsBackend σ where
  id := "prometheus"
  listNames := fetch transport c (asList asString) (getRequest c "/api/v1/label/__name__/values" [])
  queryRange q :=
    fetch transport c RangeData.ofJson (getRequest c "/api/v1/query_range" (rangeForm q))
  queryInstant q :=
    fetch transport c InstantData.ofJson (getRequest c "/api/v1/query" [("query", q)])
  isHealthy s :=
    match send transport c.healthTimeoutMs (getRequest c "/-/healthy" []) s with
    | (.error _, s) => (false, s)
    | (.ok response, s) => (response.isSuccess, s)

end AskMetrics.Prometheus
