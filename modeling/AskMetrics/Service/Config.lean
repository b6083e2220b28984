import AskMetrics.Generation.Candidate
import AskMetrics.Service.Environment

/-!
# Settings of the service

Each setting has a default, and a variable whose value makes no sense leaves it at that. So the
settings are usable whatever the variables say: there is a model to call, at least one request is
let through, and no time limit is zero.
-/
namespace AskMetrics.Service

open AskMetrics.Text Generation

/-- The settings of the service. -/
structure Config where
  deployment : Deployment
  /-- The origins whose pages may use the service; none means all. -/
  corsOrigins : List String
  corsAllowsCredentials : Bool
  /-- How long a browser may remember what is allowed. -/
  corsMaxAgeSecs : Nat
  rateLimitEnabled : Bool
  /-- The requests of one client that are let through in each window. -/
  rateLimitRequests : Nat
  rateLimitWindowMs : Nat
  /-- The models in the order in which they are called. -/
  candidates : CandidateList
  /-- The time limit of one call. -/
  generationTimeoutMs : Nat
  /-- How long a list of metric names counts as fresh. -/
  catalogLifetimeMs : Nat
  deriving Repr

namespace Config

/-- The defaults of a deployment. -/
def ofDeployment (deployment : Deployment) : Config where
  deployment := deployment
  corsOrigins := []
  corsAllowsCredentials := false
  corsMaxAgeSecs := 86400
  rateLimitEnabled := true
  rateLimitRequests := if deployment = .development then 200 else 100
  rateLimitWindowMs := 15 * 60 * 1000
  candidates := .standard
  generationTimeoutMs := 30 * 1000
  catalogLifetimeMs := 60 * 1000

/-- A number of seconds in milliseconds. -/
def seconds (n : Nat) : Nat := n * 1000

/-- The settings that the variables make. A catalog lifetime of zero is allowed: every listing is
then out of date at once. -/
def ofVariables (vars : Variables) : Config :=
  let defaults := ofDeployment (.ofVariables vars)
  { deployment := defaults.deployment
    corsOrigins := vars.words "SEXTANT_CORS_ORIGINS"
    corsAllowsCredentials :=
      ((vars "SEXTANT_CORS_ALLOW_CREDENTIALS").map (isWordInAnyCase "true")).getD false
    corsMaxAgeSecs :=
      (vars.nat? "SEXTANT_CORS_MAX_AGE_SECS" max64).getD defaults.corsMaxAgeSecs
    rateLimitEnabled :=
      ((vars "SEXTANT_RATE_LIMIT_ENABLED").map fun s => !isWordInAnyCase "false" s).getD true
    rateLimitRequests :=
      (vars.positive? "SEXTANT_RATE_LIMIT_REQUESTS" max32).getD defaults.rateLimitRequests
    rateLimitWindowMs :=
      ((vars.positive? "SEXTANT_RATE_LIMIT_WINDOW_SECS" max64).map seconds).getD
        defaults.rateLimitWindowMs
    candidates :=
      ((vars "SEXTANT_GEMINI_MODELS").bind CandidateList.parse?).getD defaults.candidates
    generationTimeoutMs :=
      ((vars.positive? "SEXTANT_GENERATION_TIMEOUT_SECS" max64).map seconds).getD
        defaults.generationTimeoutMs
    catalogLifetimeMs :=
      ((vars.nat? "SEXTANT_CATALOG_TTL_SECS" max64).map seconds).getD defaults.catalogLifetimeMs }

/-- Whether this is the production deployment. -/
def isProduction (c : Config) : Bool := c.deployment == .production

/-- The rest of a text after a given start. -/
def after? (start : String) (s : List Char) : Option (List Char) :=
  if start.toList.isPrefixOf s then some (s.drop start.length) else none

/-- Whether an entry of the list of origins covers an origin: by a star, by the same text, or by
`*.` and a domain of which the origin is, over HTTPS, the domain itself or one below it. -/
def entryCovers (entry origin : String) : Bool :=
  entry == "*" || entry == origin ||
    match after? "*." entry.toList, after? "https://" origin.toList with
    | some domain, some host => ('.' :: domain).isSuffixOf host || host == domain
    | _, _ => false

/-- Whether pages of an origin may use the service. -/
def allowsOrigin (c : Config) (origin : String) : Bool :=
  c.corsOrigins.isEmpty || c.corsOrigins.any fun entry => entryCovers entry origin

end Config

/-- The version of the service. -/
def version : String := "0.4.0"

/-- How the service names itself in its log. -/
structure Telemetry where
  serviceName : String
  serviceVersion : String
  deployment : Deployment
  /-- What is logged unless asked otherwise. -/
  defaultFilter : String
  deriving DecidableEq, Repr

/-- The telemetry settings that the variables make. -/
def Telemetry.ofVariables (vars : Variables) : Telemetry where
  serviceName := (vars "SEXTANT_SERVICE_NAME").getD "sextant-api"
  serviceVersion := version
  deployment := .ofVariables vars
  defaultFilter := "sextant_api=debug,sextant_llm=info,sextant_prom=info,tower_http=info,info"

end AskMetrics.Service
