import AskMetrics.Proofs.Generation.Fallback
import AskMetrics.Proofs.Redaction.Markers
import AskMetrics.Proofs.Text.Case
import AskMetrics.Proofs.Text.Word

/-!
# Runs that end with a rejected key

Whether a key was rejected is read twice: from the failure of a call, to decide whether the run goes
on, and from what is kept of the last failure, to sum the run up. The second text is the first one
redacted. The two readings agree: redaction brings in no marker that speaks of a rejected key, and a
failure that was read as a rejected key once is taken for one without reading it again.
-/
namespace AskMetrics.Generation

open AskMetrics.Redaction AskMetrics.Text

/-! ## Markers in redacted texts -/

/-- The markers that count as they are written. -/
def exactMarkers : List String := ["API_KEY", "API key"]

/-- The markers that count in any case. -/
def lowMarkers : List String :=
  ["unauthorized", "unauthenticated", "permission denied", "permission_denied", "invalid api key"]

theorem hasAuthenticationMarker_iff {text : String} :
    hasAuthenticationMarker text = true ↔ (∃ w ∈ exactMarkers, w.toList <:+: text.toList) ∨
      ∃ w ∈ lowMarkers, w.toList <:+: lowered text.toList := by
  simp only [hasAuthenticationMarker, mentionsAny, mentionsString, Bool.or_eq_true, List.any_eq_true,
    mentions_iff]
  rfl

/-- A separator has no case. -/
theorem lowerChar_of_isSeparating {u : Char} (h : isSeparating u = true) : lowerChar u = [u] := by
  refine lowerChar_eq_self (fun v hv hcode => ?_) (by decide) (by decide) h
  have hletter : v.isAlpha = true := isAlpha_iff.mpr (.inl hcode)
  have hblank := isBlank_of_isNameChar (u := v) (by simp [isNameChar, Char.isAlphanum, hletter])
  have hmem : v = '"' ∨ v = '\'' ∨ v = '=' ∨ v = ':' := by simpa [isSeparating, hblank] using hv
  rcases hmem with rfl | rfl | rfl | rfl <;> exact absurd hletter (by decide)

theorem isApart_exactMarkers : ∀ w ∈ exactMarkers, isApart (fun u => [u]) w.toList = true := by
  decide

theorem isApart_lowMarkers : ∀ w ∈ lowMarkers, isApart lowerChar w.toList = true := by
  decide

/-- Redaction brings in no marker that speaks of a rejected key. -/
theorem hasAuthenticationMarker_of_redact {text : String}
    (h : hasAuthenticationMarker (redact text) = true) : hasAuthenticationMarker text = true := by
  rw [hasAuthenticationMarker_iff] at h ⊢
  simp only [redact, String.toList_ofList] at h
  rcases h with ⟨w, hw, hin⟩ | ⟨w, hw, hin⟩
  · have hexact := infix_of_infix_redactChars (isApart_exactMarkers w hw) (fun _ _ => rfl)
      (s := text.toList) (by simpa using hin)
    exact .inl ⟨w, hw, by simpa using hexact⟩
  · exact .inr ⟨w, hw, infix_of_infix_redactChars (isApart_lowMarkers w hw)
      (fun _ => lowerChar_of_isSeparating) hin⟩

/-! ## The two readings -/

theorem classify_eq_authentication_iff {f : CallFailure} :
    classify f = .authentication ↔ isAuthentication f = true := by
  have hrest : ∀ quota retryable : Bool, (if quota = true then FailureClass.quotaExhausted
      else if retryable = true then .retryable else .fatal) ≠ .authentication := by decide
  by_cases h : isAuthentication f = true
  · simp [classify, h]
  · simp [classify, h, hrest]

/-- What is summed up as a rejected key. -/
theorem sumUp_eq_authentication_iff {attempts : List Attempt} :
    (∃ candidate detail, sumUp attempts = .authentication candidate detail) ↔
      ∃ last kind, attempts.getLast? = some last ∧ last.outcome = .failed kind ∧
        (kind = .authentication ∨ hasAuthenticationMarker (last.detail.getD "") = true) := by
  rcases hlast : attempts.getLast? with _ | last
  · simp [sumUp, hlast]
  · rcases ho : last.outcome with _ | _ | violation | kind
    · simp [sumUp, hlast, ho]
    · simp [sumUp, hlast, ho]
    · simp [sumUp, hlast, ho]
    · simp only [sumUp, hlast, ho]
      split_ifs with h <;> simp_all

/-- A call that is on record as failed did fail, or did not answer in time. -/
theorem Call.exists_failure {policy : Policy} {backendId : String} {c : Call} {kind : FailureClass}
    (h : (c.attempt policy backendId).outcome = .failed kind) :
    ∃ f, c.attempt policy backendId = failedAttempt policy c.candidate.id f := by
  obtain ⟨candidate, prompt, reply⟩ := c
  cases reply with
  | failure f => exact ⟨f, rfl⟩
  | silence => exact ⟨_, rfl⟩
  | text s =>
    simp only [attempt, judge_text] at h
    split at h <;> simp at h

/-- With the usual meaning of failures, the text that is kept of a failed call speaks of a rejected
key only if the failure was read as one. -/
theorem Call.kind_eq_authentication {candidates : CandidateList} {timeoutMs : Nat}
    {backendId : String} {c : Call} {kind : FailureClass}
    (h : (c.attempt (.ofCandidates candidates timeoutMs) backendId).outcome = .failed kind)
    (hmarker : hasAuthenticationMarker
      ((c.attempt (.ofCandidates candidates timeoutMs) backendId).detail.getD "") = true) :
    kind = .authentication := by
  obtain ⟨f, hf⟩ := Call.exists_failure h
  rw [hf] at h hmarker
  obtain rfl : classify f = kind := Outcome.failed.inj h
  have hraw : hasAuthenticationMarker f.message = true := hasAuthenticationMarker_of_redact hmarker
  exact classify_eq_authentication_iff.mpr (by simp [isAuthentication, hraw])

/-! ## Results of runs -/

/-- Calls of which the last one gave no query are summed up. -/
theorem report_result_of_not_accepted (policy : Policy) (backendId : String) {calls : List Call}
    {c : Call} (hlast : calls.getLast? = some c)
    (hne : (c.attempt policy backendId).outcome ≠ .accepted) :
    (report policy backendId [] calls).result =
      .error (sumUp (calls.map (Call.attempt policy backendId))) := by
  have hquery : c.query? policy backendId = none := by
    rw [Option.eq_none_iff_forall_ne_some]
    intro q hq
    exact hne ((Call.accepted_iff policy backendId).mpr ⟨q, hq⟩)
  simp [report, hlast, hquery]

/-- With the usual meaning of failures, a run ends with a rejected key exactly when its last attempt
was read as one, since redaction, between the two readings, brings in no marker. -/
theorem ends_in_authentication_iff :
    (∀ {σ : Type} (b : Backend σ) (candidates : CandidateList) (timeoutMs : Nat) (request : String)
        (s : σ),
      (∃ candidate detail, (run b (.ofCandidates candidates timeoutMs) request s).1.result =
          .error (.authentication candidate detail)) ↔
        ∃ last, (run b (.ofCandidates candidates timeoutMs) request s).1.attempts.getLast? =
          some last ∧ last.outcome = .failed .authentication) ∧
      ∀ text, hasAuthenticationMarker (redact text) = true →
        hasAuthenticationMarker text = true := by
  refine ⟨?_, fun text => hasAuthenticationMarker_of_redact⟩
  intro σ b candidates timeoutMs request s
  set policy := Policy.ofCandidates candidates timeoutMs
  by_cases hkey : b.isConfigured = true
  · rw [run_eq_report b policy request s hkey, attempts_report, List.nil_append,
      List.getLast?_map]
    generalize callsOf b policy request s = calls
    constructor
    · rintro ⟨candidate, detail, hresult⟩
      have hsum := report_result_eq_error policy b.id hresult
      obtain ⟨last, kind, hlast, houtcome, hread⟩ :=
        sumUp_eq_authentication_iff.mp ⟨candidate, detail, hsum.symm⟩
      rw [List.getLast?_map] at hlast
      obtain ⟨c, hc, rfl⟩ := Option.map_eq_some_iff.mp hlast
      obtain rfl : kind = .authentication :=
        hread.elim id fun hmarker => Call.kind_eq_authentication houtcome hmarker
      exact ⟨_, hlast, houtcome⟩
    · rintro ⟨last, hlast, houtcome⟩
      obtain ⟨c, hc, rfl⟩ := Option.map_eq_some_iff.mp hlast
      have hresult := report_result_of_not_accepted policy b.id hc (by simp [houtcome])
      obtain ⟨candidate, detail, hsum⟩ := sumUp_eq_authentication_iff.mpr
        ⟨_, .authentication, by rw [List.getLast?_map]; exact hlast, houtcome, .inl rfl⟩
      exact ⟨candidate, detail, by rw [hresult, hsum]⟩
  · obtain ⟨hrun, -⟩ := run_of_not_configured b policy request s (by simpa using hkey)
    rw [hrun]
    simp

end AskMetrics.Generation
