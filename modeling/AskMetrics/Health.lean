import AskMetrics.Json.Value

/-!
# Health of dependencies

Each dependency is healthy, degraded or unhealthy, and the whole is as well as the worst of its
parts.
-/
namespace AskMetrics

/-- How well a dependency is. -/
inductive HealthStatus where
  | healthy
  /-- It answers, but something is off. -/
  | degraded
  /-- It does not answer. -/
  | unhealthy
  deriving DecidableEq, Repr

namespace HealthStatus

/-- The name of a status. -/
def name : HealthStatus → String
  | healthy => "healthy"
  | degraded => "degraded"
  | unhealthy => "unhealthy"

/-- The worse of two. -/
def worse : HealthStatus → HealthStatus → HealthStatus
  | unhealthy, _ => unhealthy
  | _, unhealthy => unhealthy
  | degraded, _ => degraded
  | _, degraded => degraded
  | healthy, healthy => healthy

end HealthStatus

/-- What a look at one dependency found. -/
structure HealthCheck where
  status : HealthStatus
  component : String
  message : Option String
  responseTimeMs : Option Nat
  deriving DecidableEq, Repr

namespace HealthCheck

/-- A dependency that answers. -/
def healthy (component : String) : HealthCheck := ⟨.healthy, component, none, none⟩

/-- A dependency with which something is off. -/
def degraded (component message : String) : HealthCheck :=
  ⟨.degraded, component, some message, none⟩

/-- A dependency that does not answer. -/
def unhealthy (component message : String) : HealthCheck :=
  ⟨.unhealthy, component, some message, none⟩

/-- Whether nothing is off. -/
def isHealthy (c : HealthCheck) : Bool := c.status == .healthy

/-- A look at a dependency as it is reported. -/
def toJson (c : HealthCheck) : Json :=
  .record ([("status", .str c.status.name), ("component", .str c.component)] ++
    Json.optional "message" (c.message.map .str) ++
    Json.optional "response_time_ms" (c.responseTimeMs.map .nat))

end HealthCheck

/-- The worst status; healthy when nothing was looked at. -/
def overallStatus (checks : List HealthCheck) : HealthStatus :=
  (checks.map (·.status)).foldl .worse .healthy

end AskMetrics
