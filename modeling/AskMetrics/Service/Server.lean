import AskMetrics.Health
import AskMetrics.Http.Timestamp
import AskMetrics.Service.Cors
import AskMetrics.Service.RateLimit
import AskMetrics.Service.Route

/-!
# The server

The server answers requests. A request passes through some layers on its way to a route and back:
sharing across origins, counting, the security headers, and for some routes the rate limit.
-/
namespace AskMetrics.Service

open Generation Http Prometheus

/-- The backends with their settings. -/
structure Server (σ : Type) where
  config : Config
  generation : Backend σ
  metrics : MetricsBackend σ
  clock : Clock σ

/-- What is kept between requests. -/
structure ServerState (σ : Type) where
  world : σ
  cache : CatalogCache
  limiter : RateLimiter
  counters : Counters

namespace Server

variable {σ : Type}

/-- The pipeline of questions. -/
def pipeline (server : Server σ) : Pipeline σ :=
  .ofConfig server.config server.generation server.metrics server.clock

/-- The settings of the rate limit. -/
def rateLimit (server : Server σ) : RateLimit := .ofConfig server.config

/-- What is kept before the first request. -/
def initialState (server : Server σ) (world : σ) : ServerState σ :=
  ⟨world, server.pipeline.initialCache, .empty, []⟩

/-! ## Routes -/

/-- The response that tells of the service. -/
def serveIndex : Response :=
  jsonResponse 200 (.record [
    ("success", .bool true),
    ("message", .str "Natural Language to PromQL API"),
    ("version", .str version),
    ("endpoints", .record [
      ("health", .str "GET /api/health"),
      ("nl2promql", .str "POST /api/nl2promql"),
      ("queryRange", .str "GET /api/prometheus/query_range"),
      ("query", .str "GET /api/prometheus/query"),
      ("models", .str "GET /api/debug/models"),
      ("metrics", .str "GET /metrics")])])

/-- The response that holds the counters. -/
def serveCounters (counters : Counters) : Response :=
  ⟨200, [("content-type", "text/plain; version=0.0.4; charset=utf-8")], counters.exposition⟩

/-- The response that lists the models. -/
def serveModels (server : Server σ) : Response :=
  let ids := Json.strings server.config.candidates.ids
  dataResponse 200 (.record [("models", ids), ("configuredModels", ids),
    ("isConfigured", .bool server.generation.isConfigured)])

/-- The response to a question in words. -/
def serveQuestion (server : Server σ) (request : Request) (state : ServerState σ) :
    Response × ServerState σ :=
  match readQuestion request with
  | .error rejection => (rejectionResponse rejection, state)
  | .ok question =>
    let (asked, cache, world) := server.pipeline.ask question state.cache state.world
    let response := match asked.result with
      | .ok finding => dataResponse 200 finding.toJson
      | .error failure => rejectionResponse (.ofAskFailure failure)
    (response, { state with world, cache, counters := state.counters ++ asked.counted })

/-- The response with data of the metrics backend. -/
def metricsResponse {α : Type} (toJson : α → Json) : Except MetricsFailure α → Response
  | .ok data => dataResponse 200 (toJson data)
  | .error f => rejectionResponse (.ofMetrics f)

/-- The response to a query over a range. -/
def serveRange (server : Server σ) (request : Request) (state : ServerState σ) :
    Response × ServerState σ :=
  match readRange request with
  | .error rejection => (rejectionResponse rejection, state)
  | .ok query =>
    let (answer, world) := server.metrics.queryRange query state.world
    (metricsResponse RangeData.toJson answer, { state with world })

/-- The response to a query at this instant. -/
def serveInstant (server : Server σ) (request : Request) (state : ServerState σ) :
    Response × ServerState σ :=
  match readInstant request with
  | .error rejection => (rejectionResponse rejection, state)
  | .ok query =>
    let (answer, world) := server.metrics.queryInstant query state.world
    (metricsResponse InstantData.toJson answer, { state with world })

/-- A look at the metrics backend. -/
def checkMetrics (server : Server σ) (s : σ) : HealthCheck × σ :=
  let (started, s) := server.clock.uptime s
  let (up, s) := server.metrics.isHealthy s
  let (ended, s) := server.clock.uptime s
  let check : HealthCheck :=
    if up then .healthy server.metrics.id
    else .unhealthy server.metrics.id "Health probe failed"
  ({ check with responseTimeMs := some ((ended - started) / nanosPerMilli) }, s)

/-- A look at the generation backend. -/
def checkGeneration (server : Server σ) : HealthCheck :=
  if server.generation.isConfigured then .healthy server.generation.id
  else .degraded server.generation.id "No API key configured"

/-- The response that tells how well the backends are. -/
def serveHealth (server : Server σ) (s : σ) : Response × σ :=
  let (metricsCheck, s) := server.checkMetrics s
  let generationCheck := server.checkGeneration
  let checks := [metricsCheck, generationCheck]
  let status := overallStatus checks
  let isOk := status == .healthy
  let (now, s) := server.clock.wall s
  let (uptime, s) := server.clock.uptime s
  let report := Json.record [
    ("ok", .bool isOk),
    ("status", .str status.name),
    ("timestamp", .str (timestamp now)),
    ("services", .record [("prometheusUp", .bool metricsCheck.isHealthy),
      ("aiConfigured", .bool generationCheck.isHealthy)]),
    ("uptimeSeconds", .nat (uptime / nanosPerSecond)),
    ("version", .str version),
    ("checks", .list (checks.map (·.toJson)))]
  (dataResponse (if isOk then 200 else 503) report, s)

/-- The response of a route to a request with a method that it takes. -/
def serveRoute (server : Server σ) (route : Route) (request : Request) (state : ServerState σ) :
    Response × ServerState σ :=
  match route with
  | .index => (serveIndex, state)
  | .metrics => (serveCounters state.counters, state)
  | .models => (server.serveModels, state)
  | .ask => server.serveQuestion request state
  | .queryRange => server.serveRange request state
  | .queryInstant => server.serveInstant request state
  | .health =>
    let (response, world) := server.serveHealth state.world
    (response, { state with world })

/-! ## Layers -/

/-- The response of a route to a request with any method. -/
def serveMethod (server : Server σ) (route : Route) (request : Request) (state : ServerState σ) :
    Response × ServerState σ :=
  if route.takes request.method then server.serveRoute route request state
  else (emptyResponse 405, state)

/-- The response of a route behind the rate limit, if there is one for it. -/
def serveLimited (server : Server σ) (route : Route) (request : Request)
    (state : ServerState σ) : Response × ServerState σ :=
  if route.isLimited then
    let (now, world) := server.clock.uptime state.world
    let (verdict, limiter) :=
      state.limiter.check server.rateLimit (clientOf request) now
    limited server.rateLimit verdict (server.serveMethod route request)
      { state with world, limiter }
  else server.serveMethod route request state

/-- The response to a request by its path. -/
def servePath (server : Server σ) (request : Request) (state : ServerState σ) :
    Response × ServerState σ :=
  match Route.ofPath? request.path with
  | some route => server.serveLimited route request state
  | none => (rejectionResponse (.notFound request.method request.path), state)

/-- What counts of an answered request. -/
def countRequest (request : Request) (response : Response) : Counters :=
  let path := pathLabel request.path
  [.request request.method path response.status, .duration request.method path]

/-- The response to a request that does not ask beforehand what is allowed. -/
def serveCounted (server : Server σ) (request : Request) (state : ServerState σ) :
    Response × ServerState σ :=
  let (response, state) := server.servePath request state
  let response := secured response
  (response, { state with counters := state.counters ++ countRequest request response })

/-- What a route adds last: the methods that it takes where the method of the request is none of
them, and no body where the request asks for the headers alone. -/
def finish (request : Request) (response : Response) : Response :=
  match Route.ofPath? request.path with
  | none => response
  | some route =>
    if !route.takes request.method then response.withHeader "allow" route.allowed
    else if request.method == "HEAD" then { response with body := "" }
    else response

/-- The response to a request. -/
def handle (server : Server σ) (request : Request) (state : ServerState σ) :
    Response × ServerState σ :=
  let shared := originHeaders server.config (request.headers.plain? "origin")
  let (response, state) :=
    if request.method == "OPTIONS" then
      ((emptyResponse 200).withHeaders (shared ++ preflightHeaders server.config), state)
    else
      let (response, state) := server.serveCounted request state
      (response.withHeaders (shared ++ sharedHeaders), state)
  (finish request response, state)

end Server

end AskMetrics.Service
