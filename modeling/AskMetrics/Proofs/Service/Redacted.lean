import AskMetrics.Proofs.Generation.Fallback
import AskMetrics.Proofs.Redaction.Secrets
import AskMetrics.Service.Rejection

/-!
# What is told of a failure

Backends quote what they like in their failures. What a run keeps of them, and what a client is told
of them, is redacted first, so it shows no secret, whatever was quoted.
-/
namespace AskMetrics.Service

open AskMetrics.Generation AskMetrics.Prometheus AskMetrics.Redaction

theorem toList_redact (s : String) : (redact s).toList = redactChars s.toList := by
  simp [redact]

/-- A redacted text is free of secrets. -/
theorem free_redact (s : String) : Free (redact s).toList := by
  rw [toList_redact]
  exact free_redactChars _

/-- What is kept of a call is redacted. -/
theorem exists_detail_eq_redact {policy : Policy} {backendId : String} {c : Call} {detail : String}
    (h : (c.attempt policy backendId).detail = some detail) : ∃ text, detail = redact text := by
  obtain ⟨candidate, prompt, reply⟩ := c
  cases reply with
  | failure f => exact ⟨f.message, (Option.some.inj h).symm⟩
  | silence =>
    exact ⟨(CallFailure.timedOut backendId policy.timeoutMs).message, (Option.some.inj h).symm⟩
  | text s =>
    simp only [Call.attempt, judge_text] at h
    split at h
    · simp at h
    · simp at h
    · exact ⟨_, (Option.some.inj h).symm⟩

/-- No secret is in a redacted text, in what a run keeps of its calls, or in what a client is told
of a run that gave no query or of a failure of the metrics backend. -/
theorem failures_show_no_secret :
    (∀ text : String, Free (redact text).toList) ∧
      (∀ {σ : Type} (b : Backend σ) (policy : Policy) (request : String) (s : σ),
        ∀ attempt ∈ (run b policy request s).1.attempts, ∀ detail ∈ attempt.detail,
          Free detail.toList) ∧
      (∀ f : GenerationFailure, Free (Rejection.ofGeneration f).message.toList) ∧
      ∀ f : MetricsFailure, Free (Rejection.ofMetrics f).message.toList := by
  refine ⟨free_redact, ?_, fun f => free_redact f.message, fun f => free_redact f.message⟩
  intro σ b policy request s attempt hattempt detail hdetail
  rw [run_attempts_eq] at hattempt
  obtain ⟨c, -, rfl⟩ := List.mem_map.mp hattempt
  obtain ⟨text, rfl⟩ := exists_detail_eq_redact hdetail
  exact free_redact text

end AskMetrics.Service
