import AskMetrics.Generation.Attempt
import AskMetrics.Generation.Candidate
import AskMetrics.Generation.Prompt
import AskMetrics.Redaction

/-!
# Runs

A run puts a request to the models in order until one of them gives a text that is a query, one
declines, or a failure ends the walk. All attempts are kept.

A backend is given by its answer to a call, which may depend on and change a state of any type. So
a statement about all backends speaks of all replies in all orders.
-/
namespace AskMetrics.Generation

open AskMetrics.Query

/-- What comes back from a call. -/
inductive Reply where
  | text (s : String)
  | failure (f : CallFailure)
  /-- Nothing within the time limit. -/
  | silence
  deriving DecidableEq, Repr

/-- Something that turns a prompt into text by a model. -/
structure Backend (σ : Type) where
  id : String
  /-- Whether there is a key. A backend without one is not called. -/
  isConfigured : Bool
  /-- The reply to a prompt put to a model. -/
  call : Candidate → String → σ → Reply × σ

/-- How a run goes about its models. -/
structure Policy where
  candidates : CandidateList
  classifier : CallFailure → FailureClass
  timeoutMs : Nat

namespace Policy

/-- The policy with the usual meaning of failures. -/
def ofCandidates (candidates : CandidateList) (timeoutMs : Nat) : Policy :=
  ⟨candidates, classify, timeoutMs⟩

end Policy

/-- A query that a model gave. -/
structure Generated where
  query : CheckedQuery
  candidate : String
  /-- The number of calls, the successful one included. -/
  attempts : Nat
  deriving DecidableEq, Repr

/-- All that happened in a run. -/
structure Run where
  attempts : List Attempt
  state : WalkState
  result : Except GenerationFailure Generated

/-- The record of a failed call. -/
def failedAttempt (policy : Policy) (candidate : String) (f : CallFailure) : Attempt :=
  ⟨candidate, .failed (policy.classifier f), some (redact f.message)⟩

/-- What is kept of a text that breaks a rule. -/
def rejectionDetail (v : Violation) : String :=
  redact (v.message ++ ". Generated query: " ++ v.query)

/-- The record of a call, and the query if there is one. -/
def judge (policy : Policy) (backendId candidate : String) : Reply → Attempt × Option CheckedQuery
  | .failure f => (failedAttempt policy candidate f, none)
  | .silence => (failedAttempt policy candidate (.timedOut backendId policy.timeoutMs), none)
  | .text s =>
    match screen s with
    | .ok (.query q) => (⟨candidate, .accepted, none⟩, some q)
    | .ok .declined => (⟨candidate, .noAnswer, none⟩, none)
    | .error v => (⟨candidate, .rejected v, some (rejectionDetail v)⟩, none)

/-- Continues a walk with the models that are left, the first of which is at the place in the state.
`done` are the attempts so far. -/
def walk {σ : Type} (backend : Backend σ) (policy : Policy) (text : String) :
    List Candidate → WalkState → List Attempt → σ → Run × σ
  | candidate :: rest, .attempting index, done, s =>
    let (reply, s) := backend.call candidate text s
    let (attempt, query?) := judge policy backend.id candidate.id reply
    let attempts := done ++ [attempt]
    let state := (WalkState.attempting index).next attempt.outcome policy.candidates.size
    match query? with
    | some query => (⟨attempts, state, .ok ⟨query, candidate.id, attempts.length⟩⟩, s)
    | none => walk backend policy text rest state attempts s
  | [], .attempting _, done, s => (⟨done, .exhaustedFailed, .error (sumUp done)⟩, s)
  | _, state, done, s => (⟨done, state, .error (sumUp done)⟩, s)

/-- Puts a request to the models. -/
def run {σ : Type} (backend : Backend σ) (policy : Policy) (request : String) (s : σ) : Run × σ :=
  if backend.isConfigured then
    walk backend policy (prompt request) policy.candidates.toList
      (.start policy.candidates.size) [] s
  else (⟨[], .exhaustedFailed, .error .notConfigured⟩, s)

end AskMetrics.Generation
