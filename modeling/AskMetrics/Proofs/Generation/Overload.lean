import AskMetrics.Proofs.Generation.Authentication

/-!
# Runs that end with overloaded models

A run ends as if all models were overloaded when its last attempt says so. Then every model was
asked, since a model that is overloaded does not keep a run from going on. But the attempts before
are not looked at: each of them may have failed in some other passing way, or may have given a text
that is not a query.
-/
namespace AskMetrics.Generation

open AskMetrics.Redaction AskMetrics.Text

/-- Whether a call failed, and what is kept of the failure says that the model is overloaded. -/
def Attempt.isOverload (a : Attempt) : Bool :=
  match a.outcome with
  | .failed _ => hasOverloadMarker (lowered (a.detail.getD "").toList)
  | _ => false

/-! ## Markers in redacted texts -/

theorem isApart_overloadMarkers : ∀ w ∈ ["503", "service unavailable", "overloaded"],
    isApart lowerChar w.toList = true := by
  decide

/-- Redaction brings in no marker of an overload. -/
theorem hasOverloadMarker_of_redact {text : String}
    (h : hasOverloadMarker (lowered (redact text).toList) = true) :
    hasOverloadMarker (lowered text.toList) = true := by
  simp only [hasOverloadMarker, mentionsAny, List.any_eq_true, mentionsString, mentions_iff] at h ⊢
  obtain ⟨w, hw, hin⟩ := h
  rw [redact, String.toList_ofList] at hin
  exact ⟨w, hw, infix_of_infix_redactChars (isApart_overloadMarkers w hw)
    (fun _ => lowerChar_of_isSeparating) hin⟩

/-! ## The last attempt -/

/-- A failure that says that the model is overloaded is known for what it is. -/
theorem classify_ne_fatal_of_hasOverloadMarker {f : CallFailure}
    (h : hasOverloadMarker (lowered f.message.toList) = true) : classify f ≠ .fatal := by
  have hretryable : isRetryable f (lowered f.message.toList) = true := by simp [isRetryable, h]
  simp only [classify, hretryable, if_true]
  split_ifs <;> simp

/-- Only a failed call is summed up as an overload. -/
theorem exists_failed_of_sumUp {attempts : List Attempt} {attempted : List String}
    (h : sumUp attempts = .overloaded attempted) :
    ∃ last kind, attempts.getLast? = some last ∧ last.outcome = .failed kind := by
  cases hlast : attempts.getLast? with
  | none => simp [sumUp, hlast] at h
  | some last =>
    cases ho : last.outcome with
    | accepted | noAnswer | rejected => simp [sumUp, hlast, ho] at h
    | failed kind => exact ⟨last, kind, rfl, ho⟩

/-- What is summed up as an overload. -/
theorem sumUp_eq_overloaded_iff {attempts : List Attempt} {attempted : List String} {last : Attempt}
    {kind : FailureClass} (hlast : attempts.getLast? = some last) (ho : last.outcome = .failed kind) :
    sumUp attempts = .overloaded attempted ↔ attempted = attempts.map (·.candidate) ∧
      (kind ≠ .authentication ∧ hasAuthenticationMarker (last.detail.getD "") = false) ∧
      (kind ≠ .quotaExhausted ∧
        mentionsString "quota" (lowered (last.detail.getD "").toList) = false) ∧
      last.isOverload = true := by
  simp only [sumUp, hlast, ho, Attempt.isOverload]
  split_ifs with hauthentication hquota hover
  · simp only [Bool.or_eq_true, decide_eq_true_eq] at hauthentication
    simp only [false_iff]
    rintro ⟨-, ⟨hkind, hmarker⟩, -⟩
    exact hauthentication.elim hkind (by simp [hmarker])
  · simp only [Bool.or_eq_true, decide_eq_true_eq] at hquota
    simp only [false_iff]
    rintro ⟨-, -, ⟨hkind, hmarker⟩, -⟩
    exact hquota.elim hkind (by simp [hmarker])
  · simp only [Bool.or_eq_true, decide_eq_true_eq, not_or, Bool.not_eq_true] at hauthentication hquota
    simp [hauthentication, hquota, hover, eq_comm]
  · simp [hover]

section
variable {candidates : CandidateList} {timeoutMs : Nat} {backendId : String} {calls : List Call}
  {c : Call} {attempted : List String} {kind : FailureClass}

/-- With the usual meaning of failures, a call that says that the model is overloaded, and neither
that the key was rejected nor that the account is out of quota, has failed in passing. -/
theorem Call.kind_eq_retryable
    (h : (c.attempt (.ofCandidates candidates timeoutMs) backendId).outcome = .failed kind)
    (hauthentication : kind ≠ .authentication) (hquota : kind ≠ .quotaExhausted)
    (hover : (c.attempt (.ofCandidates candidates timeoutMs) backendId).isOverload = true) :
    kind = .retryable := by
  obtain ⟨f, hf⟩ := Call.exists_failure h
  rw [hf] at h hover
  obtain rfl : classify f = kind := Outcome.failed.inj h
  have hfatal : classify f ≠ .fatal :=
    classify_ne_fatal_of_hasOverloadMarker (hasOverloadMarker_of_redact hover)
  cases hkind : classify f with
  | retryable => rfl
  | authentication => exact absurd hkind hauthentication
  | quotaExhausted => exact absurd hkind hquota
  | fatal => exact absurd hkind hfatal

/-- With the usual meaning of failures, calls are reported as an overload exactly if the last one
failed in passing and what is kept of it speaks of an overload and not of a quota. -/
theorem report_eq_overloaded_iff :
    (report (.ofCandidates candidates timeoutMs) backendId [] calls).result =
        .error (.overloaded attempted) ↔
      attempted = calls.map (·.candidate.id) ∧ ∃ c, calls.getLast? = some c ∧
        (c.attempt (.ofCandidates candidates timeoutMs) backendId).outcome = .failed .retryable ∧
        (c.attempt (.ofCandidates candidates timeoutMs) backendId).isOverload = true ∧
        mentionsString "quota" (lowered
          ((c.attempt (.ofCandidates candidates timeoutMs) backendId).detail.getD "").toList) =
            false := by
  set policy := Policy.ofCandidates candidates timeoutMs
  have hnames : (calls.map (Call.attempt policy backendId)).map (·.candidate) =
      calls.map (·.candidate.id) := by simp [Function.comp_def]
  constructor
  · intro h
    have hsum := (report_result_eq_error policy backendId h).symm
    obtain ⟨last, kind, hlast, ho⟩ := exists_failed_of_sumUp hsum
    obtain ⟨hattempted, hauthentication, hquota, hover⟩ :=
      (sumUp_eq_overloaded_iff hlast ho).mp hsum
    rw [List.getLast?_map] at hlast
    obtain ⟨c, hc, rfl⟩ := Option.map_eq_some_iff.mp hlast
    rw [Call.kind_eq_retryable ho hauthentication.1 hquota.1 hover] at ho
    exact ⟨by rw [hattempted, hnames], c, hc, ho, hover, hquota.2⟩
  · rintro ⟨hattempted, c, hc, ho, hover, hquota⟩
    have hlast : (calls.map (Call.attempt policy backendId)).getLast? =
        some (c.attempt policy backendId) := by rw [List.getLast?_map, hc, Option.map_some]
    have hauthentication : hasAuthenticationMarker
        ((c.attempt policy backendId).detail.getD "") = false := by
      by_contra hmarker
      cases Call.kind_eq_authentication ho (by simpa using hmarker)
    rw [report_result_of_not_accepted policy backendId hc (by simp [ho])]
    refine congrArg _ ((sumUp_eq_overloaded_iff hlast ho).mpr ⟨?_, ?_, ?_, hover⟩)
    · rw [hattempted, hnames]
    · exact ⟨by simp, hauthentication⟩
    · exact ⟨by simp, hquota⟩

end

/-! ## All attempts -/

/-- An attempt after which the next model is tried. -/
theorem Outcome.allowsFallback_iff {o : Outcome} :
    o.allowsFallback = true ↔ o = .failed .retryable ∨ ∃ v, o = .rejected v := by
  cases o with
  | failed kind => cases kind <;> simp [allowsFallback, FailureClass.allowsFallback]
  | accepted | noAnswer | rejected => simp [allowsFallback]

/-- What holds of all entries of a list holds of the last one and of those before it. -/
theorem forall_mem_iff_of_getLast? {α : Type} {l : List α} {x : α} (h : l.getLast? = some x)
    (P : α → Prop) : (∀ y ∈ l, P y) ↔ (∀ y ∈ l.dropLast, P y) ∧ P x := by
  obtain ⟨front, rfl⟩ := List.getLast?_eq_some_iff.mp h
  simp [or_imp, forall_and]

section
variable {σ : Type} (b : Backend σ) (policy : Policy) (request : String) (s : σ)

/-- A run whose last call leads on has asked every model, and every call leads on. -/
theorem callsOf_of_leadsOn (hkey : b.isConfigured = true) {c : Call}
    (hc : (callsOf b policy request s).getLast? = some c) (hlead : leadsOn policy b.id c = true) :
    (callsOf b policy request s).map (·.candidate.id) = policy.candidates.ids ∧
      ∀ d ∈ callsOf b policy request s, leadsOn policy b.id d = true := by
  constructor
  · cases callsOf_cases b policy request s hkey with
    | inl hnone => simp [hnone.2] at hc
    | inr hsome =>
      have hlen := (hsome.2.ends hc).resolve_left (by simp [hlead])
      have hall := hsome.2.candidates_initial.eq_of_length (by rw [List.length_map, hlen])
      rw [← CandidateList.map_id_toList, ← hall, List.map_map]
      rfl
  · exact (forall_mem_iff_of_getLast? hc _).mpr
      ⟨leadsOn_of_mem_dropLast_callsOf b policy request s hkey, hlead⟩

end

section
variable {σ : Type} {b : Backend σ} {candidates : CandidateList} {timeoutMs : Nat}
  {request : String} {s : σ} {attempted : List String}

/-- A run with a key is reported as an overload if its last attempt is one, and failed in passing. -/
theorem run_eq_overloaded_iff (hkey : b.isConfigured = true) :
    (run b (.ofCandidates candidates timeoutMs) request s).1.result =
        .error (.overloaded attempted) ↔
      attempted = (callsOf b (.ofCandidates candidates timeoutMs) request s).map (·.candidate.id) ∧
        ∃ last, (run b (.ofCandidates candidates timeoutMs) request s).1.attempts.getLast? =
            some last ∧ last.outcome = .failed .retryable ∧ last.isOverload = true ∧
          mentionsString "quota" (lowered (last.detail.getD "").toList) = false := by
  rw [run_eq_report b _ request s hkey, report_eq_overloaded_iff, attempts_report, List.nil_append,
    List.getLast?_map]
  refine and_congr_right fun _ => ⟨?_, ?_⟩
  · rintro ⟨c, hc, hlast⟩
    exact ⟨_, by rw [hc, Option.map_some], hlast⟩
  · rintro ⟨last, hmap, hlast⟩
    obtain ⟨c, hc, rfl⟩ := Option.map_eq_some_iff.mp hmap
    exact ⟨c, hc, hlast⟩

/-- Then every model was asked, and each attempt led on to the next model. -/
theorem attempts_of_overloaded (hkey : b.isConfigured = true)
    (h : (run b (.ofCandidates candidates timeoutMs) request s).1.result =
      .error (.overloaded attempted)) :
    attempted = candidates.ids ∧
      (run b (.ofCandidates candidates timeoutMs) request s).1.attempts.map (·.candidate) =
        candidates.ids ∧
      ∀ a ∈ (run b (.ofCandidates candidates timeoutMs) request s).1.attempts,
        a.outcome = .failed .retryable ∨ ∃ v, a.outcome = .rejected v := by
  rw [run_eq_report b _ request s hkey] at h ⊢
  rw [attempts_report, List.nil_append]
  obtain ⟨hattempted, c, hc, ho, -⟩ := report_eq_overloaded_iff.mp h
  obtain ⟨hids, hall⟩ := callsOf_of_leadsOn b (.ofCandidates candidates timeoutMs) request s hkey hc
    (Outcome.allowsFallback_iff.mpr (.inl ho))
  have hcandidates : (Policy.ofCandidates candidates timeoutMs).candidates.ids = candidates.ids :=
    rfl
  refine ⟨by rw [hattempted, hids, hcandidates], ?_, fun a ha => ?_⟩
  · rw [List.map_map, ← hcandidates, ← hids]
    simp [Function.comp_def]
  · obtain ⟨d, hd, rfl⟩ := List.mem_map.mp ha
    exact Outcome.allowsFallback_iff.mp (hall d hd)

end

/-- **Which runs end with overloaded models.** With the usual meaning of failures, whatever a
backend replies, a run ends so exactly if its last attempt failed in passing, and what is kept of
the failure speaks of an overload and not of a quota. Then all models were asked, and each attempt
failed in passing or gave a text that is not a query. So all attempts are overloads exactly if those
before the last one are. -/
theorem ends_in_overload_iff {σ : Type} (b : Backend σ) (candidates : CandidateList)
    (timeoutMs : Nat) (request : String) (s : σ) :
    let r := (run b (.ofCandidates candidates timeoutMs) request s).1
    ((∃ attempted, r.result = .error (.overloaded attempted)) ↔
      ∃ last, r.attempts.getLast? = some last ∧ last.outcome = .failed .retryable ∧
        last.isOverload = true ∧
        mentionsString "quota" (lowered (last.detail.getD "").toList) = false) ∧
    ∀ attempted, r.result = .error (.overloaded attempted) →
      attempted = candidates.ids ∧ r.attempts.map (·.candidate) = candidates.ids ∧
      (∀ a ∈ r.attempts, a.outcome = .failed .retryable ∨ ∃ v, a.outcome = .rejected v) ∧
      ((∀ a ∈ r.attempts, a.isOverload = true) ↔
        ∀ a ∈ r.attempts.dropLast, a.isOverload = true) := by
  intro r
  by_cases hkey : b.isConfigured = true
  · constructor
    · exact ⟨fun ⟨_, h⟩ => ((run_eq_overloaded_iff hkey).mp h).2,
        fun h => ⟨_, (run_eq_overloaded_iff hkey).mpr ⟨rfl, h⟩⟩⟩
    · intro attempted h
      obtain ⟨-, last, hlast, -, hover, -⟩ := (run_eq_overloaded_iff hkey).mp h
      obtain ⟨hattempted, hasked, hled⟩ := attempts_of_overloaded hkey h
      refine ⟨hattempted, hasked, hled, ?_⟩
      rw [forall_mem_iff_of_getLast? hlast]
      exact and_iff_left hover
  · have hr : r = ⟨[], .exhaustedFailed, .error .notConfigured⟩ :=
      (run_of_not_configured b _ request s (by simpa using hkey)).1
    simp [hr]

/-- The first model gives a text that is not a query and the second one is overloaded: the run ends
as if both were. -/
theorem overloaded_after_rejection :
    let r := (run (Scripted.Scenario.generation true) (.ofCandidates (.ofIds ["a", "b"]) 30000) "q"
      (.ofReplies [.text "sum x", .failure Scripted.overloaded])).1
    r.result = .error (.overloaded ["a", "b"]) ∧
      r.attempts.map Attempt.isOverload = [false, true] := by
  decide +kernel

end AskMetrics.Generation
