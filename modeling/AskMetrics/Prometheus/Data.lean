import AskMetrics.Json.Decode
import AskMetrics.Prometheus.Label

/-!
# Data of the metrics backend

Query results are series of samples. A sample is a time and a value, and values are written as
texts so that infinities and not-a-numbers have a place. A query over a range gives a matrix: a
list of series. A query at an instant gives a vector, which is a list of samples with labels, or a
single sample without labels.
-/
namespace AskMetrics.Prometheus

open Json (Decoded RecordField asRecord asString asList asOption asDouble required)

/-! ## Samples -/

/-- A time in seconds and a value. -/
structure Sample where
  timestamp : Double
  text : String
  deriving DecidableEq, Repr

namespace Sample

/-- The number that the value is, if it is one. -/
def value? (s : Sample) : Option Double := Double.read? s.text.toList

/-- A sample is written as a list of its two parts. -/
def toJson (s : Sample) : Json := .list [.double s.timestamp, .str s.text]

/-- The parts of a sample that have been read. -/
structure Draft where
  timestamp : Option Double
  text : Option String

/-- The parts of a sample. -/
def fields : List (RecordField Draft) :=
  [.of "" false (·.timestamp) (fun d a => { d with timestamp := some a }) asDouble,
    .of "" false (·.text) (fun d a => { d with text := some a }) asString]

/-- Reads a sample. -/
def ofJson : Json → Decoded Sample
  | .array items closed => do
    let d ← Json.fillItems fields ⟨none, none⟩ items closed
    .ok ⟨← required d.timestamp, ← required d.text⟩
  | j => Json.mismatch j

end Sample

/-! ## Labels -/

/-- Adds a label that is written as a member. -/
def insertMember (labels : LabelSet) : Option String × Json → Decoded LabelSet
  | (none, _) => .error .syntaxFault
  | (some name, value) => (asString value).map fun v => labels.insert name v

/-- Reads a label set. Of two labels with one name the later counts. -/
def LabelSet.ofJson : Json → Decoded LabelSet
  | .object members closed => do
    let labels ← members.foldlM insertMember .empty
    if closed then .ok labels else .error .syntaxFault
  | j => Json.mismatch j

/-- A label set is written as an object. -/
def LabelSet.toJson (labels : LabelSet) : Json :=
  .record (labels.pairs.map fun (name, value) => (name, .str value))

/-! ## Ranges -/

/-- The samples of one series. -/
structure RangeSeries where
  metric : LabelSet
  values : List Sample
  deriving DecidableEq, Repr

namespace RangeSeries

/-- How a series is written. -/
def toJson (s : RangeSeries) : Json :=
  .record [("metric", s.metric.toJson), ("values", .list (s.values.map (·.toJson)))]

/-- The parts of a series that have been read. -/
structure Draft where
  metric : Option LabelSet
  values : Option (List Sample)

/-- The parts of a series. -/
def fields : List (RecordField Draft) :=
  [.of "metric" true (·.metric) (fun d a => { d with metric := some a }) LabelSet.ofJson,
    .of "values" true (·.values) (fun d a => { d with values := some a }) (asList Sample.ofJson)]

/-- Reads a series. -/
def ofJson (j : Json) : Decoded RangeSeries := do
  let d ← asRecord fields ⟨none, none⟩ j
  .ok ⟨d.metric.getD .empty, d.values.getD []⟩

end RangeSeries

/-- The result of a query over a range. -/
structure RangeData where
  resultType : String
  result : List RangeSeries
  deriving DecidableEq, Repr

namespace RangeData

/-- The result without series. -/
def empty : RangeData := ⟨"matrix", []⟩

/-- How a result is written. -/
def toJson (d : RangeData) : Json :=
  .record [("resultType", .str d.resultType), ("result", .list (d.result.map (·.toJson)))]

/-- The parts of a result that have been read. -/
structure Draft where
  resultType : Option String
  result : Option (List RangeSeries)

/-- The parts of a result. -/
def fields : List (RecordField Draft) :=
  [.of "resultType" false (·.resultType) (fun d a => { d with resultType := some a }) asString,
    .of "result" true (·.result) (fun d a => { d with result := some a })
      (asList RangeSeries.ofJson)]

/-- Reads a result. -/
def ofJson (j : Json) : Decoded RangeData := do
  let d ← asRecord fields ⟨none, none⟩ j
  .ok ⟨← required d.resultType, d.result.getD []⟩

end RangeData

/-! ## Instants -/

/-- A sample with labels. -/
structure InstantSample where
  metric : LabelSet
  value : Sample
  deriving DecidableEq, Repr

namespace InstantSample

/-- How a sample with labels is written. -/
def toJson (s : InstantSample) : Json :=
  .record [("metric", s.metric.toJson), ("value", s.value.toJson)]

/-- The parts of a sample with labels that have been read. -/
structure Draft where
  metric : Option LabelSet
  value : Option Sample

/-- The parts of a sample with labels. -/
def fields : List (RecordField Draft) :=
  [.of "metric" true (·.metric) (fun d a => { d with metric := some a }) LabelSet.ofJson,
    .of "value" false (·.value) (fun d a => { d with value := some a }) Sample.ofJson]

/-- Reads a sample with labels. -/
def ofJson (j : Json) : Decoded InstantSample := do
  let d ← asRecord fields ⟨none, none⟩ j
  .ok ⟨d.metric.getD .empty, ← required d.value⟩

end InstantSample

/-- What a query at an instant results in. -/
inductive InstantResult where
  | vector (samples : List InstantSample)
  | scalar (sample : Sample)
  deriving DecidableEq, Repr

namespace InstantResult

/-- How a result is written. The two kinds carry no mark. -/
def toJson : InstantResult → Json
  | vector samples => .list (samples.map (·.toJson))
  | scalar sample => sample.toJson

/-- Reads a result: as a vector if it is one, else as a single sample. The text of the result is
looked through as a whole before that. -/
def ofJson (j : Json) : Decoded InstantResult :=
  if !j.isStorable (Json.maxNesting - 1) then .error .syntaxFault
  else
    match asList InstantSample.ofJson j with
    | .ok samples => .ok (vector samples)
    | .error _ =>
      match Sample.ofJson j with
      | .ok sample => .ok (scalar sample)
      | .error _ => .error .shapeFault

/-- The samples without their labels. -/
def samples : InstantResult → List Sample
  | vector samples => samples.map (·.value)
  | scalar sample => [sample]

end InstantResult

/-- The result of a query at an instant. -/
structure InstantData where
  resultType : String
  result : InstantResult
  deriving DecidableEq, Repr

namespace InstantData

/-- The result without samples. -/
def empty : InstantData := ⟨"vector", .vector []⟩

/-- How a result is written. -/
def toJson (d : InstantData) : Json :=
  .record [("resultType", .str d.resultType), ("result", d.result.toJson)]

/-- The parts of a result that have been read. -/
structure Draft where
  resultType : Option String
  result : Option InstantResult

/-- The parts of a result. -/
def fields : List (RecordField Draft) :=
  [.of "resultType" false (·.resultType) (fun d a => { d with resultType := some a }) asString,
    .of "result" false (·.result) (fun d a => { d with result := some a }) InstantResult.ofJson]

/-- Reads a result. -/
def ofJson (j : Json) : Decoded InstantData := do
  let d ← asRecord fields ⟨none, none⟩ j
  .ok ⟨← required d.resultType, ← required d.result⟩

end InstantData

/-! ## What is asked -/

/-- A query over a range of time. -/
structure RangeQuery where
  query : String
  /-- The first time in seconds. -/
  start : Double
  /-- The last time in seconds. -/
  finish : Double
  /-- The time between samples, such as `15s`. -/
  step : String
  deriving DecidableEq, Repr

/-- The time between samples unless asked otherwise. -/
def defaultStep : String := "15s"

/-! ## Frames -/

/-- The frame of an answer. -/
structure Answer (α : Type) where
  status : String
  data : Option α
  errorType : Option String
  error : Option String
  warnings : List String
  deriving Repr

namespace Answer

/-- Whether the backend did what it was asked. -/
def isSuccess {α : Type} (a : Answer α) : Bool := a.status == "success"

/-- The parts of an answer that have been read. -/
structure Draft (α : Type) where
  status : Option String
  data : Option (Option α)
  errorType : Option (Option String)
  error : Option (Option String)
  warnings : Option (List String)

/-- The parts of an answer. -/
def fields {α : Type} (data : Json → Decoded α) : List (RecordField (Draft α)) :=
  [.of "status" false (·.status) (fun d a => { d with status := some a }) asString,
    .of "data" false (·.data) (fun d a => { d with data := some a }) (asOption data),
    .of "errorType" false (·.errorType) (fun d a => { d with errorType := some a })
      (asOption asString),
    .of "error" false (·.error) (fun d a => { d with error := some a }) (asOption asString),
    .of "warnings" true (·.warnings) (fun d a => { d with warnings := some a })
      (asList asString)]

/-- Reads an answer. -/
def ofJson {α : Type} (data : Json → Decoded α) (j : Json) : Decoded (Answer α) := do
  let d ← asRecord (fields data) ⟨none, none, none, none, none⟩ j
  .ok ⟨← required d.status, d.data.getD none, d.errorType.getD none, d.error.getD none,
    d.warnings.getD []⟩

end Answer

/-- The frame of an error. -/
structure ErrorBody where
  error : Option String
  errorType : Option String
  deriving DecidableEq, Repr

namespace ErrorBody

/-- The parts of an error that have been read. -/
structure Draft where
  error : Option (Option String)
  errorType : Option (Option String)

/-- The parts of an error. -/
def fields : List (RecordField Draft) :=
  [.of "error" false (·.error) (fun d a => { d with error := some a }) (asOption asString),
    .of "errorType" false (·.errorType) (fun d a => { d with errorType := some a })
      (asOption asString)]

/-- Reads an error. -/
def ofJson (j : Json) : Decoded ErrorBody := do
  let d ← asRecord fields ⟨none, none⟩ j
  .ok ⟨d.error.getD none, d.errorType.getD none⟩

end ErrorBody

end AskMetrics.Prometheus
