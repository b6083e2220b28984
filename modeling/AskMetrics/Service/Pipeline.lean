import AskMetrics.Catalog.Cache
import AskMetrics.Generation.Run
import AskMetrics.Query.Window
import AskMetrics.Request.Window
import AskMetrics.Service.Config
import AskMetrics.Service.Counter
import AskMetrics.Service.Rejection
import AskMetrics.Text.Quoted

/-!
# From question to query

A question in words goes through the following steps: the text is cleaned, a vague text is turned
away, the models are asked until one gives a query, the window of the question is put into the
query, and the metrics in the query are looked up in the catalog.
-/
namespace AskMetrics.Service

open Generation Prometheus Query

/-- A question in words. -/
structure Question where
  text : String
  /-- The window given beside the text, in minutes. -/
  windowMinutes : Option Nat
  deriving DecidableEq, Repr

/-- A query for a question. -/
structure Finding where
  /-- The text as it was put to the models. -/
  question : String
  query : String
  /-- The window in the query, in minutes. -/
  windowMinutes : Option Nat
  /-- The model that gave the query. -/
  candidate : String
  /-- The number of calls that were made. -/
  attempts : Nat
  deriving DecidableEq, Repr

/-- A finding as it stands in a response. -/
def Finding.toJson (f : Finding) : Json :=
  .record ([("naturalLanguageQuery", .str f.question), ("promqlQuery", .str f.query)] ++
    Json.optional "lookbackMinutes" (f.windowMinutes.map .nat) ++
    [("model", .str f.candidate), ("attempts", .nat f.attempts)])

/-- Why there is no query for a question. -/
inductive AskFailure where
  | lowIntent
  | generation (f : GenerationFailure)
  | unknownMetrics (query : String) (partition : MetricPartition)
  deriving DecidableEq, Repr

namespace AskFailure

/-- The message of a failure. -/
def message : AskFailure → String
  | lowIntent => Request.lowIntentMessage
  | generation f => f.message
  | unknownMetrics _ partition => Rejection.unknownMetricsMessage partition.unknown

/-- The label of a failure in counters. -/
def label : AskFailure → String
  | lowIntent => "low_intent"
  | unknownMetrics .. => "unknown_metrics"
  | generation .notConfigured => "not_configured"
  | generation .noCandidates => "not_configured"
  | generation (.authentication ..) => "auth_failed"
  | generation (.quotaExhausted ..) => "quota_exceeded"
  | generation (.overloaded _) => "overloaded"
  | generation (.syntaxExhausted ..) => "syntax_violation"
  | generation (.exhausted ..) => "failed"
  | generation (.noAnswer _) => "no_answer"

end AskFailure

/-- The rejection for a question without a query. -/
def Rejection.ofAskFailure : AskFailure → Rejection
  | .lowIntent => .lowIntent
  | .generation f => .ofGeneration f
  | .unknownMetrics _ partition => .unknownMetrics partition

/-- The models, the metrics backend and the clock, with their settings. -/
structure Pipeline (σ : Type) where
  generation : Backend σ
  metrics : MetricsBackend σ
  clock : Clock σ
  policy : Policy
  /-- How long a list of metric names counts as fresh, in milliseconds. -/
  catalogLifetime : Nat

/-- What came of a question. -/
structure Asked where
  result : Except AskFailure Finding
  /-- What was counted on the way. -/
  counted : Counters

namespace Pipeline

/-- The pipeline with the settings of the service. -/
def ofConfig {σ : Type} (config : Config) (generation : Backend σ) (metrics : MetricsBackend σ)
    (clock : Clock σ) : Pipeline σ where
  generation := generation
  metrics := metrics
  clock := clock
  policy := .ofCandidates config.candidates config.generationTimeoutMs
  catalogLifetime := config.catalogLifetimeMs

/-- The cache with which a pipeline starts. -/
def initialCache {σ : Type} (p : Pipeline σ) : CatalogCache := .ofLifetime p.catalogLifetime

/-- The calls of a run in the counters. -/
def countAttempts (run : Run) : Counters :=
  run.attempts.map fun a => .attempt a.candidate a.outcome.label

/-- The listing of a look into the catalog in the counters. -/
def countRefresh (reading : CatalogReading) : Counters :=
  (reading.refresh.map fun status => Counter.refresh status.label).toList

/-- Looks up the metrics of a query. -/
def lookUp (text : String) (g : Generated) (window : Option Nat) (catalog : MetricCatalog) :
    Except AskFailure Finding :=
  let query := g.query.withWindow window
  let partition := catalog.partition query.metrics
  if partition.allKnown then .ok ⟨text, query.text, window, g.candidate, g.attempts⟩
  else .error (.unknownMetrics query.text partition)

/-- The steps from a question to a query. -/
def steps {σ : Type} (p : Pipeline σ) (question : Question) (cache : CatalogCache) (s : σ) :
    Asked × CatalogCache × σ :=
  let text := Request.sanitize question.text
  if Request.isLowIntent text then (⟨.error .lowIntent, []⟩, cache, s)
  else
    let (run, s) := Generation.run p.generation p.policy text s
    match run.result with
    | .error f => (⟨.error (.generation f), countAttempts run⟩, cache, s)
    | .ok g =>
      let window := Request.reconcile (Request.detectWindow text) question.windowMinutes
      let (reading, cache, s) := cache.current p.clock p.metrics s
      let result := lookUp text g window reading.catalog
      (⟨result, countAttempts run ++ countRefresh reading⟩, cache, s)

/-- The label of a result in counters. -/
def outcomeLabel : Except AskFailure Finding → String
  | .ok _ => "success"
  | .error f => f.label

/-- What comes of a question. The result itself is counted last. -/
def ask {σ : Type} (p : Pipeline σ) (question : Question) (cache : CatalogCache) (s : σ) :
    Asked × CatalogCache × σ :=
  let (asked, cache, s) := p.steps question cache s
  (⟨asked.result, asked.counted ++ [.question (outcomeLabel asked.result)]⟩, cache, s)

/-! ## Description -/

/-- A number of milliseconds in the largest unit that is not too large. -/
def durationText (ms : Nat) : String :=
  if ms = 0 then "0ns"
  else if ms < 1000 then s!"{ms}ms"
  else
    let part := ms % 1000
    let digits := [part / 100, part / 10 % 10, part % 10].map Nat.digitChar
    let kept := (digits.reverse.dropWhile (· == '0')).reverse
    toString (ms / 1000) ++ (if kept.isEmpty then "" else "." ++ .ofList kept) ++ "s"

/-- A pipeline as a log shows it. -/
def describe {σ : Type} (p : Pipeline σ) : String :=
  "QueryPipeline \x7b backend: " ++ Text.quotedText p.generation.id ++ ", candidates: " ++
    Text.quotedList p.policy.candidates.ids ++ ", catalog: MetricCatalogCache \x7b backend: " ++
    Text.quotedText p.metrics.id ++ ", ttl: " ++ durationText p.catalogLifetime ++ " \x7d \x7d"

end Pipeline

end AskMetrics.Service
