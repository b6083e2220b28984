import AskMetrics.Gemini.Client
import AskMetrics.Prometheus.Client
import AskMetrics.Service.LogFilter
import AskMetrics.Service.Server

/-!
# Starting up

The service reads its settings, tells in its log what it found, and listens for connections until
it is told to stop. A setting with which it cannot work ends it before that.
-/
namespace AskMetrics.Service

open AskMetrics.Text Http

/-- A line of the log. -/
structure LogLine where
  level : LogLevel
  target : String
  message : String
  fields : List (String × Json)

namespace LogLine

/-- A line of the service itself. -/
def ofService (level : LogLevel) (message : String) (fields : List (String × Json)) : LogLine :=
  ⟨level, "sextant_api", message, fields⟩

/-- What a line says. -/
def toJson (l : LogLine) : Json :=
  .record [("level", .str l.level.name), ("target", .str l.target),
    ("fields", .record (("message", .str l.message) :: l.fields))]

end LogLine

/-! ## Settings -/

/-- The names of all variables that are read. -/
def variableNames : List String :=
  ["SEXTANT_ENV", "NODE_ENV", "SEXTANT_SERVICE_NAME", "RUST_LOG", "PORT", "SEXTANT_API_BIND",
    "SEXTANT_CORS_ORIGINS", "SEXTANT_CORS_ALLOW_CREDENTIALS", "SEXTANT_CORS_MAX_AGE_SECS",
    "SEXTANT_RATE_LIMIT_ENABLED", "SEXTANT_RATE_LIMIT_REQUESTS", "SEXTANT_RATE_LIMIT_WINDOW_SECS",
    "SEXTANT_GEMINI_MODELS", "SEXTANT_GENERATION_TIMEOUT_SECS", "SEXTANT_CATALOG_TTL_SECS",
    "GEMINI_API_KEY", "SEXTANT_GEMINI_BASE_URL", "PROMETHEUS_URL",
    "SEXTANT_PROMETHEUS_TIMEOUT_SECS"]

/-- The server that the variables make, with clients that call over a transport. -/
def Server.ofVariables {σ : Type} (transport : Transport σ) (clock : Clock σ) (vars : Variables) :
    Except ConfigFailure (Server σ) :=
  (Prometheus.ClientConfig.ofVariables vars).map fun metrics =>
    { config := .ofVariables vars
      generation := Gemini.backend transport (.ofVariables vars)
      metrics := Prometheus.backend transport metrics
      clock := clock }

/-! ## Course -/

/-- What the service finds when it starts. -/
structure Startup where
  filter : LogFilter
  /-- The log so far, with what the filter does not keep. -/
  log : List LogLine
  /-- Where to listen, or why not to. -/
  listenAt : Except Rejection Endpoint

/-- How a service came to its end. -/
structure Course where
  log : List LogLine
  result : Except Rejection Unit

namespace Startup

/-- The line that tells how the service names itself. -/
def telemetryLine (t : Telemetry) : LogLine :=
  ⟨.info, "sextant_api::telemetry::tracer", "Telemetry initialized",
    [("service_name", .str t.serviceName), ("service_version", .str t.serviceVersion),
      ("environment", .str t.deployment.name)]⟩

/-- The line that tells that there is no key. -/
def keyLines (c : Gemini.GeminiConfig) : List LogLine :=
  if c.isConfigured then []
  else [.ofService .warn
    "GEMINI_API_KEY not set; translation requests will fail with NOT_CONFIGURED" []]

/-- The line that tells of the pipeline. -/
def pipelineLine (c : Config) : LogLine :=
  .ofService .info "Pipeline ready"
    [("candidates", .str (quotedList c.candidates.ids)),
      ("generation_timeout_secs", .nat (c.generationTimeoutMs / 1000)),
      ("catalog_ttl_secs", .nat (c.catalogLifetimeMs / 1000))]

/-- The line that tells which origins are allowed. -/
def corsLine (c : Config) : LogLine :=
  if c.corsOrigins.isEmpty then ⟨.info, "sextant_api::routes", "CORS: allowing all origins", []⟩
  else ⟨.info, "sextant_api::routes", "CORS: restricting origins",
    [("origins", .str (quotedList c.corsOrigins))]⟩

/-- The line that tells where the service listens. -/
def serverLine (c : Config) (address : Endpoint) (metricsUrl : String) : LogLine :=
  .ofService .info "Starting SEXTANT API server"
    [("addr", .str address.text), ("environment", .str c.deployment.name),
      ("prometheus_url", .str metricsUrl)]

/-- Where to listen, as the variables say. -/
def listenAddress (vars : Variables) : Except Rejection Endpoint :=
  let host := (vars "SEXTANT_API_BIND").getD "0.0.0.0"
  let portText := (vars "PORT").getD "4000"
  match readNat? max16 portText.toList with
  | none => .error (.invalidField "PORT" ("Invalid port value: " ++ portText))
  | some portNumber =>
    let text := host ++ ":" ++ toString portNumber
    match Endpoint.ofText? text with
    | some address => .ok address
    | none =>
      .error (.invalidField "SEXTANT_API_BIND"
        ("Invalid bind address " ++ text ++ ": invalid socket address syntax"))

/-- The filter that the variables make. -/
def logFilter (vars : Variables) (t : Telemetry) : LogFilter :=
  ((vars "RUST_LOG").bind LogFilter.ofText?).getD (.ofTextLossy t.defaultFilter)

/-- What the service finds when it starts. -/
def ofVariables (vars : Variables) : Startup :=
  let telemetry := Telemetry.ofVariables vars
  let filter := logFilter vars telemetry
  let config := Config.ofVariables vars
  let first := telemetryLine telemetry
  match Prometheus.ClientConfig.ofVariables vars with
  | .error failure => ⟨filter, [first], .error (.internal failure.message)⟩
  | .ok metrics =>
    let log := first :: keyLines (.ofVariables vars) ++ [pipelineLine config, corsLine config]
    match listenAddress vars with
    | .error rejection => ⟨filter, log, .error rejection⟩
    | .ok address =>
      ⟨filter, log ++ [serverLine config address metrics.baseUrl], .ok address⟩

/-- The lines of the log after listening has begun. -/
def lastLines : List LogLine :=
  [.ofService .info "Shutdown signal received" [], .ofService .info "Server stopped" []]

/-- The lines that the filter keeps. -/
def kept (s : Startup) (lines : List LogLine) : List LogLine :=
  lines.filter fun l => s.filter.keeps l.target l.level

/-- The whole course of the service. `listen` says why an address cannot be listened at, if it
cannot; otherwise the service runs until it is told to stop. -/
def finish (s : Startup) (listen : Endpoint → Option String) : Course :=
  match s.listenAt with
  | .error rejection => ⟨s.kept s.log, .error rejection⟩
  | .ok address =>
    match listen address with
    | some reason =>
      ⟨s.kept s.log, .error (.internal ("Failed to bind " ++ address.text ++ ": " ++ reason))⟩
    | none => ⟨s.kept (s.log ++ lastLines), .ok ()⟩

end Startup

end AskMetrics.Service
