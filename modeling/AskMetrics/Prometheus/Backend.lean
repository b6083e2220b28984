import AskMetrics.Prometheus.Data
import AskMetrics.Prometheus.Failure

/-!
# Metrics backends

A metrics backend lists metric names, answers queries and says whether it is up. Like a generation
backend, it is given by its answers, which may depend on and change a state of any type.
-/
namespace AskMetrics.Prometheus

/-- Something that knows metrics. -/
structure MetricsBackend (σ : Type) where
  id : String
  /-- The names of all metrics. -/
  listNames : σ → Except MetricsFailure (List String) × σ
  /-- The result of a query over a range. -/
  queryRange : RangeQuery → σ → Except MetricsFailure RangeData × σ
  /-- The result of a query at this instant. -/
  queryInstant : String → σ → Except MetricsFailure InstantData × σ
  /-- Whether the backend is up. -/
  isHealthy : σ → Bool × σ

end AskMetrics.Prometheus
