import AskMetrics.Generation.CallFailure
import AskMetrics.Query.Check

/-!
# Attempts

An attempt is one call to a model with what came of it. The walk over the models moves from one
state to the next by the outcome of each attempt, and a walk that ends without a query is summed up
by its last attempt.
-/
namespace AskMetrics.Generation

open AskMetrics.Query AskMetrics.Text

/-- What came of a call. -/
inductive Outcome where
  /-- The text is a query. -/
  | accepted
  /-- The model declined. -/
  | noAnswer
  /-- The text breaks a rule. -/
  | rejected (violation : Violation)
  /-- The call failed. -/
  | failed (kind : FailureClass)
  deriving DecidableEq, Repr

namespace Outcome

/-- Whether the next model is tried. -/
def allowsFallback : Outcome → Bool
  | rejected _ => true
  | failed kind => kind.allowsFallback
  | accepted => false
  | noAnswer => false

/-- The label of an outcome in counters. -/
def label : Outcome → String
  | accepted => "accepted"
  | noAnswer => "no_answer"
  | rejected _ => "syntax_rejected"
  | failed kind => kind.label

end Outcome

/-- A call on record. -/
structure Attempt where
  candidate : String
  outcome : Outcome
  /-- What went wrong, without credentials. -/
  detail : Option String
  deriving DecidableEq, Repr

/-! ## The walk -/

/-- Where a walk over the models is. -/
inductive WalkState where
  | pending
  /-- The model at a place is called next. -/
  | attempting (index : Nat)
  | succeeded
  | exhaustedFailed
  deriving DecidableEq, Repr

namespace WalkState

/-- The first state of a walk over `total` models. -/
def start (total : Nat) : WalkState :=
  if total = 0 then exhaustedFailed else attempting 0

/-- The state after an attempt in a walk over `total` models. -/
def next (state : WalkState) (outcome : Outcome) (total : Nat) : WalkState :=
  match state with
  | pending => start total
  | attempting i =>
    if outcome = .accepted then succeeded
    else if outcome.allowsFallback && i + 1 < total then attempting (i + 1)
    else exhaustedFailed
  | succeeded => succeeded
  | exhaustedFailed => exhaustedFailed

/-- Whether a walk is over. -/
def isTerminal : WalkState → Bool
  | succeeded => true
  | exhaustedFailed => true
  | _ => false

end WalkState

/-! ## Failed runs -/

/-- Why a run gave no query. -/
inductive GenerationFailure where
  | notConfigured
  | noCandidates
  | authentication (candidate detail : String)
  | quotaExhausted (candidate detail : String)
  | overloaded (attempted : List String)
  | syntaxExhausted (attempted : List String) (violation : Violation)
  | exhausted (attempted : List String) (detail : String)
  | noAnswer (candidate : String)
  deriving DecidableEq, Repr

namespace GenerationFailure

/-- The message of a failed run. -/
def message : GenerationFailure → String
  | notConfigured => "Generation backend is not configured. Please set GEMINI_API_KEY."
  | noCandidates => "No generation candidates configured"
  | authentication .. =>
    "Invalid API key for the generation backend. The key may be incorrect, expired, or lack the required permissions."
  | quotaExhausted .. => "Generation API quota exceeded. Please try again later."
  | overloaded attempted =>
    "All generation candidates are currently overloaded. Please try again in a few moments. Attempted: " ++
      ", ".intercalate attempted
  | syntaxExhausted _ violation =>
    "Every candidate produced an invalid query. Last failure: " ++ violation.rule.description
  | exhausted attempted detail =>
    s!"Failed to generate PromQL after trying {attempted.length} candidate(s): {detail}"
  | noAnswer _ =>
    "The request is too vague or out of scope to generate a safe PromQL query. Please name a metric (e.g. CPU, memory, disk, network) and an optional time window."

end GenerationFailure

/-- The failure that attempts without a query amount to. The last attempt decides; of a failed
call, the text on record is read once more. -/
def sumUp (attempts : List Attempt) : GenerationFailure :=
  match attempts.getLast? with
  | none => .noCandidates
  | some last =>
    let attempted := attempts.map (·.candidate)
    let detail := last.detail.getD ""
    let low := lowered detail.toList
    match last.outcome with
    | .noAnswer => .noAnswer last.candidate
    | .failed kind =>
      if kind = .authentication || hasAuthenticationMarker detail then
        .authentication last.candidate detail
      else if kind = .quotaExhausted || mentionsString "quota" low then
        .quotaExhausted last.candidate detail
      else if hasOverloadMarker low then .overloaded attempted
      else .exhausted attempted detail
    | .rejected violation => .syntaxExhausted attempted violation
    | .accepted => .exhausted attempted detail

end AskMetrics.Generation
