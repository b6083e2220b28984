import AskMetrics.Clock
import AskMetrics.Generation.Run
import AskMetrics.Prometheus.Backend

/-!
# Scenarios

A scenario says in advance what the backends answer and keeps what they were asked, so that
everything around them can be tried out without them. Replies of models are given out one by one;
when none is left, all models are overloaded. Of the listings of metric names the last one
repeats.
-/
namespace AskMetrics.Scripted

open Generation Prometheus Query

/-! ## Failures -/

/-- The name of the scripted generation backend. -/
def provider : String := "scripted"

/-- A model is overloaded. -/
def overloaded : CallFailure :=
  .requestFailed provider 503 "The model is overloaded. Please try again later."

/-- A model does not exist. -/
def modelMissing : CallFailure :=
  .requestFailed provider 404 "models/x is not found for API version v1beta"

/-- A key is rejected. -/
def invalidKey : CallFailure :=
  .requestFailed provider 400 "API key not valid. Please pass a valid API key. (INVALID_ARGUMENT)"

/-- An account is out of quota. -/
def quotaExceeded : CallFailure :=
  .rateLimited provider 0 "You exceeded your current quota, please check your plan."

/-- The metrics backend cannot be reached. -/
def connectionRefused : MetricsFailure := .unreachable "connection refused"

/-! ## Data -/

/-- The metrics of a small host. -/
def nodeMetrics : List String :=
  ["up", "node_cpu_seconds_total", "node_memory_MemAvailable_bytes", "node_memory_MemTotal_bytes",
    "node_network_receive_bytes_total", "node_disk_read_bytes_total"]

/-- A series of two samples. -/
def rangeFixture : RangeData :=
  ⟨"matrix", [⟨(LabelSet.empty.insert "instance" "localhost:9100").insert "job" "node",
    [⟨.ofNat 1700000000, "0.25"⟩, ⟨.ofNat 1700000015, "0.5"⟩]⟩]⟩

/-- A single sample. -/
def instantFixture : InstantData :=
  ⟨"vector", .vector [⟨LabelSet.empty.insert "job" "node", ⟨.ofNat 1700000000, "1"⟩⟩]⟩

/-! ## Scenarios -/

/-- What the metrics backend was asked. -/
inductive MetricsCall where
  | names
  | range (q : RangeQuery)
  | instant (q : String)
  deriving DecidableEq, Repr

/-- The answers to come and the calls so far. -/
structure Scenario where
  /-- What the models will reply. -/
  replies : List Reply
  /-- Which models were called with which prompt. -/
  calls : List (Candidate × String)
  /-- What the listings will give. -/
  listings : List (Except MetricsFailure (List String))
  range : Except MetricsFailure RangeData
  instant : Except MetricsFailure InstantData
  isHealthy : Bool
  metricsCalls : List MetricsCall
  /-- How often the time was read. -/
  ticks : Nat

namespace Scenario

/-- The scenario in which the models give some replies and there are no metrics. -/
def ofReplies (replies : List Reply) : Scenario where
  replies := replies
  calls := []
  listings := []
  range := .ok .empty
  instant := .ok .empty
  isHealthy := true
  metricsCalls := []
  ticks := 0

/-- The next reply of a model. -/
def nextReply (s : Scenario) (candidate : Candidate) (prompt : String) : Reply × Scenario :=
  let s := { s with calls := s.calls ++ [(candidate, prompt)] }
  match s.replies with
  | [] => (.failure overloaded, s)
  | reply :: rest => (reply, { s with replies := rest })

/-- The next listing. -/
def nextListing (s : Scenario) : Except MetricsFailure (List String) × Scenario :=
  let s := { s with metricsCalls := s.metricsCalls ++ [MetricsCall.names] }
  match s.listings with
  | [] => (.ok [], s)
  | [last] => (last, s)
  | listing :: rest => (listing, { s with listings := rest })

/-- The models of a scenario. -/
def generation (isConfigured : Bool) : Backend Scenario where
  id := provider
  isConfigured := isConfigured
  call candidate prompt s := s.nextReply candidate prompt

/-- The metrics backend of a scenario. -/
def metrics (id : String) : MetricsBackend Scenario where
  id := id
  listNames := nextListing
  queryRange q s := (s.range, { s with metricsCalls := s.metricsCalls ++ [.range q] })
  queryInstant q s := (s.instant, { s with metricsCalls := s.metricsCalls ++ [.instant q] })
  isHealthy s := (s.isHealthy, s)

/-- The clock of a scenario. Each time that it is read a nanosecond passes. -/
def clock : Clock Scenario :=
  ⟨fun s => (0, s), fun s => (s.ticks, { s with ticks := s.ticks + 1 })⟩

end Scenario

/-- The scenario of a metrics backend that always knows the same. -/
def constant (names : List String) (range : RangeData) (isHealthy : Bool) : Scenario :=
  { Scenario.ofReplies [] with
    listings := [.ok names], range := .ok range, instant := .ok instantFixture, isHealthy }

/-- The scenario of a metrics backend that always fails. -/
def failing (f : MetricsFailure) : Scenario :=
  { Scenario.ofReplies [] with
    listings := [.error f], range := .error f, instant := .error f, isHealthy := false }

/-! ## Expectations -/

/-- Whether a text is a query. -/
def isValidQuery (text : String) : Bool := (validate text).isOk

/-- Whether a rule is the one that a text breaks. -/
def isRejectedBy (text : String) (rule : Rule) : Bool :=
  match validate text with
  | .ok _ => false
  | .error v => v.rule == rule

/-- Whether a run ends because all models are overloaded. -/
def endsOverloaded {α : Type} : Except GenerationFailure α → Bool
  | .error (.overloaded _) => true
  | _ => false

/-- Whether a run ends because the key was rejected. -/
def endsUnauthenticated {α : Type} : Except GenerationFailure α → Bool
  | .error (.authentication ..) => true
  | _ => false

end AskMetrics.Scripted
