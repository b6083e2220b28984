import AskMetrics.Json.Decode
import AskMetrics.Number.Natural
import AskMetrics.Text.Blank

/-!
# Messages of the Gemini API

A prompt is sent as the only content of a request. The response holds candidates, of which the
first counts, or says why the prompt was blocked. An error holds a message, the name of a status,
and details, some of which say for how long to wait.
-/
namespace AskMetrics.Gemini

open AskMetrics.Text
open Json (Decoded RecordField asRecord asString asList asOption asNat required)

/-! ## Requests -/

/-- How freely a model answers. -/
structure Sampling where
  temperature : Double
  topP : Double
  topK : Nat
  candidateCount : Nat
  deriving DecidableEq, Repr

/-- The sampling that gives nearly the same answer each time. -/
def Sampling.standard : Sampling where
  temperature := .ofScientific false 15 (-2)
  topP := .ofScientific false 9 (-1)
  topK := 40
  candidateCount := 1

/-- The sampling as it stands in a request. -/
def Sampling.toJson (s : Sampling) : Json :=
  .record [("temperature", .double s.temperature), ("topP", .double s.topP), ("topK", .nat s.topK),
    ("candidateCount", .nat s.candidateCount)]

/-- The body of a request. -/
def requestBody (prompt : String) (sampling : Sampling) : Json :=
  .record [
    ("contents", .list [.record [("role", .str "user"),
      ("parts", .list [.record [("text", .str prompt)]])]]),
    ("generationConfig", sampling.toJson)]

/-! ## Responses -/

/-- What a model says: who speaks, and parts of text. -/
structure Content where
  role : Option String
  parts : List String
  deriving DecidableEq, Repr

/-- One of the answers in a response. -/
structure Candidate where
  content : Option Content
  finishReason : Option String
  deriving DecidableEq, Repr

/-- A response. -/
structure GenerateResponse where
  candidates : List Candidate
  /-- Why the prompt was blocked, where the response says something about the prompt. -/
  promptFeedback : Option (Option String)
  deriving DecidableEq, Repr

/-- The only field of a record with one field. -/
def single {α : Type} (key : String) (hasDefault : Bool) (value : Json → Decoded α) :
    List (RecordField (Option α)) :=
  [.of key hasDefault (fun d => d) (fun _ a => some a) value]

/-- Reads a part of text. -/
def readPart (j : Json) : Decoded String := do
  let text ← asRecord (single "text" true asString) none j
  .ok (text.getD "")

namespace Content

/-- The parts of a content that have been read. -/
structure Draft where
  role : Option (Option String)
  parts : Option (List String)

/-- The parts of a content. -/
def fields : List (RecordField Draft) :=
  [.of "role" true (·.role) (fun d a => { d with role := some a }) (asOption asString),
    .of "parts" true (·.parts) (fun d a => { d with parts := some a }) (asList readPart)]

/-- Reads a content. -/
def ofJson (j : Json) : Decoded Content := do
  let d ← asRecord fields ⟨none, none⟩ j
  .ok ⟨d.role.getD none, d.parts.getD []⟩

end Content

namespace Candidate

/-- The parts of a candidate that have been read. -/
structure Draft where
  content : Option (Option Content)
  finishReason : Option (Option String)

/-- The parts of a candidate. -/
def fields : List (RecordField Draft) :=
  [.of "content" false (·.content) (fun d a => { d with content := some a })
      (asOption Content.ofJson),
    .of "finishReason" false (·.finishReason) (fun d a => { d with finishReason := some a })
      (asOption asString)]

/-- Reads a candidate. -/
def ofJson (j : Json) : Decoded Candidate := do
  let d ← asRecord fields ⟨none, none⟩ j
  .ok ⟨d.content.getD none, d.finishReason.getD none⟩

end Candidate

/-- Reads what is said about a prompt. -/
def readFeedback (j : Json) : Decoded (Option String) := do
  let reason ← asRecord (single "blockReason" false (asOption asString)) none j
  .ok (reason.getD none)

namespace GenerateResponse

/-- The parts of a response that have been read. -/
structure Draft where
  candidates : Option (List Candidate)
  promptFeedback : Option (Option (Option String))

/-- The parts of a response. -/
def fields : List (RecordField Draft) :=
  [.of "candidates" true (·.candidates) (fun d a => { d with candidates := some a })
      (asList Candidate.ofJson),
    .of "promptFeedback" false (·.promptFeedback) (fun d a => { d with promptFeedback := some a })
      (asOption readFeedback)]

/-- Reads a response. -/
def ofJson (j : Json) : Decoded GenerateResponse := do
  let d ← asRecord fields ⟨none, none⟩ j
  .ok ⟨d.candidates.getD [], d.promptFeedback.getD none⟩

/-- The text of the first candidate, if it is not blank. -/
def text? (r : GenerateResponse) : Option String := do
  let content ← (← r.candidates.head?).content
  let text := String.join content.parts
  if isBlankString text then none else some text

/-- Why the prompt was blocked. -/
def blockReason (r : GenerateResponse) : Option String := r.promptFeedback.getD none

/-- What to say of a response without text. -/
def emptyReason (r : GenerateResponse) : String :=
  match r.blockReason, r.candidates.head?.bind (·.finishReason) with
  | some reason, _ => s!"prompt blocked ({reason})"
  | none, some reason => s!"empty answer (finish reason {reason})"
  | none, none => "no candidates in response"

end GenerateResponse

/-! ## Errors -/

/-- What an error says. -/
structure ErrorDetail where
  code : Nat
  message : String
  /-- The name of the status. -/
  status : Option String
  /-- Anything else, of any shape. -/
  details : List Json
  deriving Repr

/-- How deep a detail is nested in the text of an error at least. -/
def detailDepth : Nat := 3

/-- A value that is kept as it is. -/
def asDetail (j : Json) : Decoded Json :=
  if j.isStorable (Json.maxNesting - detailDepth) then .ok j else .error .syntaxFault

/-- The milliseconds that a number of seconds with an `s` after it stands for, rounded, and at
most the largest whole number of 64 bits. -/
def durationMs? (text : String) : Option Int := do
  let s := (trim text.toList).reverse
  let digits ← match s with
    | 's' :: rest => some rest.reverse
    | _ => none
  let seconds ← Double.read? digits
  let ms := seconds.mul (.ofNat 1000)
  if !seconds.isFinite then none
  else if seconds.significand == 0 then some 0
  else if seconds.negative then none
  else match ms.roundNat? with
    | some n => some (clampInt n)
    | none => some maxInt

namespace ErrorDetail

/-- The parts of an error that have been read. -/
structure Draft where
  code : Option Nat
  message : Option String
  status : Option (Option String)
  details : Option (List Json)

/-- The parts of an error. -/
def fields : List (RecordField Draft) :=
  [.of "code" true (·.code) (fun d a => { d with code := some a }) (asNat max16),
    .of "message" true (·.message) (fun d a => { d with message := some a }) asString,
    .of "status" false (·.status) (fun d a => { d with status := some a }) (asOption asString),
    .of "details" true (·.details) (fun d a => { d with details := some a }) (asList asDetail)]

/-- Reads an error without its frame. -/
def ofInner (j : Json) : Decoded ErrorDetail := do
  let d ← asRecord fields ⟨none, none, none, none⟩ j
  .ok ⟨d.code.getD 0, d.message.getD "", d.status.getD none, d.details.getD []⟩

/-- Reads an error in its frame. -/
def ofJson (j : Json) : Decoded ErrorDetail := do
  required (← asRecord (single "error" false ofInner) none j)

/-- The texts under a key in the details. -/
def texts (e : ErrorDetail) (key : String) : List String :=
  e.details.filterMap fun d => (d.member? key).bind (·.string?)

/-- The message with the name of the status and the reasons after it, so that what they tell stays
visible. -/
def describe (e : ErrorDetail) : String :=
  let reasons := e.texts "reason"
  e.message ++ (match e.status with
    | some status => s!" ({status})"
    | none => "") ++
    (if reasons.isEmpty then "" else " [" ++ ", ".intercalate reasons ++ "]")

/-- For how many milliseconds to wait. -/
def retryDelayMs? (e : ErrorDetail) : Option Int :=
  (e.texts "retryDelay").findSome? durationMs?

end ErrorDetail

end AskMetrics.Gemini
