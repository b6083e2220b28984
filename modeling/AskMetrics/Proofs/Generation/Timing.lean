import AskMetrics.Proofs.Generation.Authentication
import AskMetrics.Proofs.Redaction.Numeral

/-!
# Times in failures

Two failures carry a time in milliseconds: a rate limit, and a call without an answer. The time is
no more than a number in the message, but a run is summed up by reading messages, and one of the
markers that are looked for is a number: an overloaded model answers with status 503. So a time with
these three digits in it is read as that status. No other reading depends on the time.
-/
namespace AskMetrics.Generation

open AskMetrics.Redaction AskMetrics.Text

/-! ## Numbers in texts -/

/-- A number as it is written. -/
structure Numeral (n : List Char) : Prop where
  ne_nil : n ≠ []
  isNumeral_of_mem : ∀ u ∈ n, isNumeral u = true

/-- A text around a number, with a blank before the number and its unit behind. -/
def framed (x n y : List Char) : List Char := x ++ [' '] ++ (n ++ 'm' :: y)

/-- A marker without digits. -/
def isPlainMarker (w : String) : Bool := !w.toList.isEmpty && w.toList.all (!isNumeral ·)

section
variable {w x y n n' : List Char} {markers : List String}

theorem numeral_repr (n : Nat) : Numeral n.repr.toList := by
  rw [Nat.repr, String.toList_ofList]
  refine ⟨Nat.toDigits_ne_nil, fun u hu => ?_⟩
  simp [isNumeral, Nat.isDigit_of_mem_toDigits (by decide) (by decide) hu]

/-- A negative number has a sign before its digits. -/
theorem numeral_toString (n : Int) : Numeral (toString n).toList := by
  cases n with
  | ofNat n => exact numeral_repr n
  | negSucc n =>
    have hsign : (toString (Int.negSucc n)).toList = '-' :: n.succ.repr.toList := by
      simp [toString, Int.repr]
    rw [hsign]
    exact ⟨by simp, List.forall_mem_cons.mpr ⟨by decide, (numeral_repr n.succ).isNumeral_of_mem⟩⟩

/-- A marker without digits is before the number or behind it. -/
theorem infix_framed_iff (hn : Numeral n) (hne : w ≠ []) (hw : ∀ u ∈ w, isNumeral u = false) :
    w <:+: framed x n y ↔ w <:+: x ++ [' '] ∨ w <:+: 'm' :: y := by
  have hnot : ∀ u ∈ n, u ∉ w := fun u hu hmem =>
    absurd (hn.isNumeral_of_mem u hu) (by simp [hw u hmem])
  have hbefore : ∀ u ∈ (n ++ 'm' :: y).head?, u ∉ w := by
    intro u hu
    rw [List.head?_append_of_ne_nil _ hn.ne_nil] at hu
    exact hnot u (List.mem_of_mem_head? hu)
  have hinside : ¬ w <:+: n := by
    intro hin
    obtain ⟨u, v, rfl⟩ := List.exists_cons_of_ne_nil hne
    exact hnot u (hin.subset (.head _)) (.head _)
  rw [framed, infix_append_iff_of_not_mem (.inr hbefore), infix_append_iff_of_not_mem
    (.inl fun u hu => hnot u (List.mem_of_mem_getLast? hu)), or_iff_right hinside]

/-- A marker of digits is before the number, in it or behind it. -/
theorem infix_framed_iff_of_numeral (hw : Numeral w) :
    w <:+: framed x n y ↔ w <:+: x ++ [' '] ∨ w <:+: n ∨ w <:+: 'm' :: y := by
  have hnot : ∀ u, isNumeral u = false → u ∉ w := fun u hu hmem => by
    simp [hw.isNumeral_of_mem u hmem] at hu
  have hblank : ∀ u ∈ (x ++ [' ']).getLast?, u ∉ w := by
    intro u hu
    obtain rfl : ' ' = u := by simpa using hu
    exact hnot _ (by decide)
  have hunit : ∀ u ∈ ('m' :: y).head?, u ∉ w := by
    intro u hu
    obtain rfl : 'm' = u := by simpa using hu
    exact hnot _ (by decide)
  rw [framed, infix_append_iff_of_not_mem (.inl hblank), infix_append_iff_of_not_mem (.inr hunit)]

/-- Markers without digits are mentioned around the number or not at all. -/
theorem mentionsAny_framed (hmarkers : ∀ w ∈ markers, isPlainMarker w = true) (hn : Numeral n) :
    mentionsAny markers (framed x n y) =
      (mentionsAny markers (x ++ [' ']) || mentionsAny markers ('m' :: y)) := by
  have hplain : ∀ w ∈ markers, w.toList <:+: framed x n y ↔
      w.toList <:+: x ++ [' '] ∨ w.toList <:+: 'm' :: y := by
    intro w hw
    have hmarker := hmarkers w hw
    simp only [isPlainMarker, Bool.and_eq_true, Bool.not_eq_true', List.isEmpty_eq_false_iff,
      List.all_eq_true] at hmarker
    exact infix_framed_iff hn hmarker.1 hmarker.2
  rw [Bool.eq_iff_iff]
  simp only [mentionsAny, mentionsString, Bool.or_eq_true, List.any_eq_true, mentions_iff]
  constructor
  · rintro ⟨w, hw, hin⟩
    exact ((hplain w hw).mp hin).imp (⟨w, hw, ·⟩) (⟨w, hw, ·⟩)
  · rintro (⟨w, hw, hin⟩ | ⟨w, hw, hin⟩)
    · exact ⟨w, hw, (hplain w hw).mpr (.inl hin)⟩
    · exact ⟨w, hw, (hplain w hw).mpr (.inr hin)⟩

theorem lowered_framed (hn : Numeral n) :
    lowered (framed x n y) = framed (lowered x) n (lowered y) := by
  have hself : lowered n = n := by
    have hchar : ∀ u ∈ n, lowerChar u = [u] := fun u hu =>
      lowerChar_eq_self (fun _ => not_capital_of_isNumeral) (by decide) (by decide)
        (hn.isNumeral_of_mem u hu)
    rw [lowered, List.flatMap_congr hchar, List.flatMap_singleton']
  have hblank : lowered [' '] = [' '] := by decide
  have hunit : lowerChar 'm' = ['m'] := by decide
  simp only [framed, lowered, List.flatMap_append, List.flatMap_cons] at hself hblank ⊢
  rw [hself, hblank, hunit]
  rfl

/-- How the marker with digits depends on the number. -/
theorem hasOverloadMarker_framed (hn : Numeral n) :
    hasOverloadMarker (framed x n y) = (hasOverloadMarker (x ++ [' ']) ||
      mentionsString "503" n || hasOverloadMarker ('m' :: y)) := by
  have hsplit : ∀ s, hasOverloadMarker s =
      (mentionsString "503" s || mentionsAny ["service unavailable", "overloaded"] s) :=
    fun _ => rfl
  have hdigits : mentionsString "503" (framed x n y) = (mentionsString "503" (x ++ [' ']) ||
      mentionsString "503" n || mentionsString "503" ('m' :: y)) := by
    have hnumeral : Numeral "503".toList := ⟨by decide, List.all_eq_true.mp (by decide)⟩
    rw [Bool.eq_iff_iff]
    simp only [mentionsString, Bool.or_eq_true, mentions_iff, or_assoc]
    exact infix_framed_iff_of_numeral hnumeral
  rw [hsplit, hsplit, hsplit, hdigits, mentionsAny_framed (by decide) hn]
  ac_rfl

end

section
variable {w : String} {x y n n' : List Char}

/-- A marker without digits is mentioned around any number or around none. -/
theorem mentionsString_framed (hw : isPlainMarker w = true) (hn : Numeral n) (hn' : Numeral n') :
    mentionsString w (framed x n y) = mentionsString w (framed x n' y) := by
  have hany : ∀ s, mentionsString w s = mentionsAny [w] s := fun s => by simp [mentionsAny]
  have hmarkers : ∀ v ∈ [w], isPlainMarker v = true := by simpa using hw
  rw [hany, hany, mentionsAny_framed hmarkers hn, mentionsAny_framed hmarkers hn']

theorem hasAuthenticationMarker_framed (hn : Numeral n) (hn' : Numeral n') :
    hasAuthenticationMarker (.ofList (framed x n y)) =
      hasAuthenticationMarker (.ofList (framed x n' y)) := by
  simp only [hasAuthenticationMarker, String.toList_ofList]
  rw [lowered_framed hn, lowered_framed hn', mentionsAny_framed (by decide) hn,
    mentionsAny_framed (by decide) hn', mentionsAny_framed (by decide) hn,
    mentionsAny_framed (by decide) hn']

/-- The word before the number belongs to the text around it. -/
theorem append_afterWord (x n y : List Char) :
    x ++ (afterWord ++ (n ++ 'm' :: y)) = framed (x ++ " after".toList) n y := by
  simp [framed, afterWord]

end

/-! ## Failures that differ in a time -/

/-- Two failures that differ in a time only, and the times as they are written. -/
inductive Retimed : CallFailure → CallFailure → List Char → List Char → Prop
  | rateLimited (provider text : String) (retryAfterMs retryAfterMs' : Int) :
    Retimed (.rateLimited provider retryAfterMs text) (.rateLimited provider retryAfterMs' text)
      (toString retryAfterMs).toList (toString retryAfterMs').toList
  | timedOut (provider : String) (timeoutMs timeoutMs' : Nat) :
    Retimed (.timedOut provider timeoutMs) (.timedOut provider timeoutMs')
      (toString timeoutMs).toList (toString timeoutMs').toList

namespace Retimed
variable {f f' : CallFailure} {n n' : List Char}

theorem symm (h : Retimed f f' n n') : Retimed f' f n' n := by
  cases h with
  | rateLimited => exact .rateLimited ..
  | timedOut => exact .timedOut ..

theorem numeral (h : Retimed f f' n n') : Numeral n := by
  cases h with
  | rateLimited => exact numeral_toString _
  | timedOut => exact numeral_repr _

/-- The messages, with the word that redaction stops at before the time. -/
theorem exists_message (h : Retimed f f' n n') : ∃ x y, EndsIn (isFirm · = true) x ∧
    f.message.toList = x ++ (afterWord ++ (n ++ 'm' :: y)) ∧
      f'.message.toList = x ++ (afterWord ++ (n' ++ 'm' :: y)) := by
  cases h with
  | rateLimited provider text t t' =>
    have hafter : " (429), retry after ".toList = " (429), retry".toList ++ afterWord := by decide
    have hunit : "ms: ".toList = 'm' :: "s: ".toList := by decide
    have hmessage : ∀ t, (CallFailure.rateLimited provider t text).message.toList =
        ("Rate limited by ".toList ++ provider.toList ++ " (429), retry".toList) ++
          (afterWord ++ ((toString t).toList ++ 'm' :: ("s: ".toList ++ text.toList))) := by
      intro t
      change ("Rate limited by " ++ provider ++ " (429), retry after " ++ toString t ++ "ms: " ++
        text).toList = _
      simp only [String.toList_append, hafter, hunit, List.append_assoc, List.cons_append]
    exact ⟨_, _, .append_left ⟨'y', by decide, by decide⟩ _, hmessage t, hmessage t'⟩
  | timedOut provider t t' =>
    have hafter : " timed out after ".toList = " timed out".toList ++ afterWord := by decide
    have hunit : "ms".toList = 'm' :: "s".toList := by decide
    have hmessage : ∀ t, (CallFailure.timedOut provider t).message.toList =
        ("Request to ".toList ++ provider.toList ++ " timed out".toList) ++
          (afterWord ++ ((toString t).toList ++ 'm' :: "s".toList)) := by
      intro t
      change ("Request to " ++ provider ++ " timed out after " ++ toString t ++ "ms").toList = _
      simp only [String.toList_append, hafter, hunit, List.append_assoc]
    exact ⟨_, _, .append_left ⟨'t', by decide, by decide⟩ _, hmessage t, hmessage t'⟩

theorem exists_framed_message (h : Retimed f f' n n') : ∃ x y,
    f.message = .ofList (framed x n y) ∧ f'.message = .ofList (framed x n' y) := by
  obtain ⟨x, y, -, hmessage, hmessage'⟩ := h.exists_message
  refine ⟨x ++ " after".toList, y, ?_, ?_⟩
  · rw [← append_afterWord, ← hmessage, String.ofList_toList]
  · rw [← append_afterWord, ← hmessage', String.ofList_toList]

/-- What is kept of the messages. -/
theorem exists_framed_redact (h : Retimed f f' n n') : ∃ x y,
    redact f.message = .ofList (framed x n y) ∧ redact f'.message = .ofList (framed x n' y) := by
  obtain ⟨x, y, hx, hmessage, hmessage'⟩ := h.exists_message
  obtain ⟨t, s, hredact⟩ := exists_redactChars_numeral hx y
  refine ⟨t ++ " after".toList, s, ?_, ?_⟩
  · rw [redact, hmessage, hredact n h.numeral.isNumeral_of_mem, append_afterWord]
  · rw [redact, hmessage', hredact n' h.symm.numeral.isNumeral_of_mem, append_afterWord]

theorem status?_eq (h : Retimed f f' n n') : f.status? = f'.status? := by
  cases h <;> rfl

theorem isPassing_eq (h : Retimed f f' n n') : isPassing f = true ∧ isPassing f' = true := by
  cases h <;> exact ⟨rfl, rfl⟩

/-- What a failure means does not depend on its time. -/
theorem classify_eq (h : Retimed f f' n n') : classify f = classify f' := by
  obtain ⟨x, y, hmessage, hmessage'⟩ := h.exists_framed_message
  have hn := h.numeral
  have hn' := h.symm.numeral
  have hauthentication : isAuthentication f = isAuthentication f' := by
    rw [isAuthentication, isAuthentication, h.status?_eq, hmessage, hmessage',
      hasAuthenticationMarker_framed hn hn']
  have hquota : isQuota f (lowered f.message.toList) = isQuota f' (lowered f'.message.toList) := by
    rw [isQuota, isQuota, h.status?_eq, hmessage, hmessage', String.toList_ofList,
      String.toList_ofList, lowered_framed hn, lowered_framed hn',
      mentionsString_framed (by decide) hn hn',
      mentionsString_framed (w := "quota") (by decide) hn hn']
  have hretryable : ∀ low, isRetryable f low = true ∧ isRetryable f' low = true := fun low => by
    simp [isRetryable, h.isPassing_eq]
  simp only [classify, hauthentication, hquota, hretryable]

end Retimed

/-! ## Kinds of failed runs -/

/-- The kinds of failed runs. -/
inductive FailureKind where
  | notConfigured
  | noCandidates
  | authentication
  | quotaExhausted
  | overloaded
  | syntaxExhausted
  | exhausted
  | noAnswer
  deriving DecidableEq, Repr

/-- The kind of a failed run. -/
def GenerationFailure.kind : GenerationFailure → FailureKind
  | notConfigured => .notConfigured
  | noCandidates => .noCandidates
  | authentication .. => .authentication
  | quotaExhausted .. => .quotaExhausted
  | overloaded .. => .overloaded
  | syntaxExhausted .. => .syntaxExhausted
  | exhausted .. => .exhausted
  | noAnswer .. => .noAnswer

/-- The kind of failure that a run ends with, if it has no query. -/
def Run.kind? (r : Run) : Option FailureKind :=
  match r.result with
  | .ok _ => none
  | .error f => some f.kind

/-- The kind that a failed call gives to a run that ends with it, by what the failure means and by
the text that is kept of it. -/
def callKind (c : FailureClass) (detail : String) : FailureKind :=
  if c = .authentication || hasAuthenticationMarker detail then .authentication
  else if c = .quotaExhausted || mentionsString "quota" (lowered detail.toList) then .quotaExhausted
  else if hasOverloadMarker (lowered detail.toList) then .overloaded
  else .exhausted

theorem kind_sumUp_of_failed (earlier : List Attempt) {a : Attempt} {c : FailureClass}
    (ha : a.outcome = .failed c) :
    (sumUp (earlier ++ [a])).kind = callKind c (a.detail.getD "") := by
  simp only [sumUp, List.getLast?_concat, ha, callKind]
  split_ifs <;> rfl

/-- The kind that a failed call gives to a run depends on a number in its text by three digits
only. -/
theorem callKind_framed (c : FailureClass) {x y n n' : List Char} (hn : Numeral n)
    (hn' : Numeral n') {k k' : FailureKind} (hk : k = callKind c (.ofList (framed x n y)))
    (hk' : k' = callKind c (.ofList (framed x n' y))) :
    k = k' ∨
      ("503".toList <:+: n ∧ ¬ "503".toList <:+: n' ∧ k = .overloaded ∧ k' = .exhausted) ∨
      (¬ "503".toList <:+: n ∧ "503".toList <:+: n' ∧ k = .exhausted ∧ k' = .overloaded) := by
  have hdigits : ∀ n, "503".toList <:+: n ↔ mentionsString "503" n = true := fun n => by
    rw [mentionsString, mentions_iff]
  simp only [callKind, String.toList_ofList, lowered_framed hn, hasOverloadMarker_framed hn,
    hasAuthenticationMarker_framed hn hn', mentionsString_framed (w := "quota") (by decide) hn hn']
    at hk
  simp only [callKind, String.toList_ofList, lowered_framed hn', hasOverloadMarker_framed hn'] at hk'
  simp only [hdigits]
  split_ifs at hk hk' with hauthentication hquota hover hover' hover'
  · exact .inl (hk.trans hk'.symm)
  · exact .inl (hk.trans hk'.symm)
  · exact .inl (hk.trans hk'.symm)
  · -- the text around the number is the same, so the number made the difference
    simp only [Bool.or_eq_true, not_or] at hover hover'
    obtain ⟨⟨hbefore, hnot⟩, hbehind⟩ := hover'
    have hin := (hover.resolve_right hbehind).resolve_left hbefore
    exact .inr (.inl ⟨hin, hnot, hk, hk'⟩)
  · simp only [Bool.or_eq_true, not_or] at hover hover'
    obtain ⟨⟨hbefore, hnot⟩, hbehind⟩ := hover
    have hin := (hover'.resolve_right hbehind).resolve_left hbefore
    exact .inr (.inr ⟨hnot, hin, hk, hk'⟩)
  · exact .inl (hk.trans hk'.symm)

section
variable {σ : Type} (b : Backend σ) (policy : Policy) (request : String) (s : σ)

/-- A run that ends with a failed call is summed up by it. -/
theorem kind?_run_of_failed {earlier : List Attempt} {candidate : String} {f : CallFailure}
    (h : (run b policy request s).1.attempts = earlier ++ [failedAttempt policy candidate f]) :
    (run b policy request s).1.kind? =
      some (callKind (policy.classifier f) (redact f.message)) := by
  have hkey : b.isConfigured = true := by
    by_contra hno
    simp [(run_of_not_configured b policy request s (by simpa using hno)).1] at h
  rw [run_eq_report b policy request s hkey, attempts_report, List.nil_append] at h
  rw [run_eq_report b policy request s hkey]
  generalize callsOf b policy request s = calls at h ⊢
  have hlast := congrArg List.getLast? h
  rw [List.getLast?_map, List.getLast?_concat] at hlast
  obtain ⟨c, hc, hattempt⟩ := Option.map_eq_some_iff.mp hlast
  have hresult := report_result_of_not_accepted policy b.id hc (by simp [hattempt, failedAttempt])
  rw [Run.kind?, hresult, h]
  exact congrArg some (kind_sumUp_of_failed earlier rfl)

end

/-- **The time in the last failure matters by three digits only**: two runs whose last calls fail in
the same way but for the time end in the same kind of failure, unless exactly one of the times has
the digits of status 503 in it. Then the run with them can end as if the models were overloaded. -/
theorem kind_of_retimed {σ σ' : Type} (b : Backend σ) (b' : Backend σ') (candidates : CandidateList)
    (timeoutMs timeoutMs' : Nat) (request : String) (s : σ) (s' : σ') {earlier : List Attempt}
    {candidate : String} {f f' : CallFailure} {n n' : List Char} (hretimed : Retimed f f' n n')
    (h : (run b (.ofCandidates candidates timeoutMs) request s).1.attempts =
      earlier ++ [failedAttempt (.ofCandidates candidates timeoutMs) candidate f])
    (h' : (run b' (.ofCandidates candidates timeoutMs') request s').1.attempts =
      earlier ++ [failedAttempt (.ofCandidates candidates timeoutMs') candidate f']) :
    ∃ k k', (run b (.ofCandidates candidates timeoutMs) request s).1.kind? = some k ∧
      (run b' (.ofCandidates candidates timeoutMs') request s').1.kind? = some k' ∧
      (k = k' ∨
        ("503".toList <:+: n ∧ ¬ "503".toList <:+: n' ∧ k = .overloaded ∧ k' = .exhausted) ∨
        (¬ "503".toList <:+: n ∧ "503".toList <:+: n' ∧ k = .exhausted ∧ k' = .overloaded)) := by
  refine ⟨_, _, kind?_run_of_failed b _ request s h, kind?_run_of_failed b' _ request s' h', ?_⟩
  obtain ⟨x, y, hredact, hredact'⟩ := hretimed.exists_framed_redact
  exact callKind_framed (classify f) hretimed.numeral hretimed.symm.numeral (by rw [← hredact]; rfl)
    (by rw [← hredact', hretimed.classify_eq]; rfl)

/-- A scripted run in which the only model does not answer in time. -/
def silentRun (timeoutMs : Nat) : Run :=
  (run (Scripted.Scenario.generation true) (.ofCandidates (.ofIds ["a"]) 30000) "q"
    (.ofReplies [.failure (.timedOut Scripted.provider timeoutMs)])).1

theorem kind_of_retimed_silentRun :
    (silentRun 1500).attempts = [] ++ [failedAttempt (.ofCandidates (.ofIds ["a"]) 30000) "a"
        (.timedOut Scripted.provider 1500)] ∧
      (silentRun 2500).attempts = [] ++ [failedAttempt (.ofCandidates (.ofIds ["a"]) 30000) "a"
        (.timedOut Scripted.provider 2500)] ∧
      ∃ k, (silentRun 1500).kind? = some k ∧ (silentRun 2500).kind? = some k := by
  have hattempts : (silentRun 1500).attempts = [] ++
      [failedAttempt (.ofCandidates (.ofIds ["a"]) 30000) "a" (.timedOut Scripted.provider 1500)] := by
    decide +kernel
  have hattempts' : (silentRun 2500).attempts = [] ++
      [failedAttempt (.ofCandidates (.ofIds ["a"]) 30000) "a" (.timedOut Scripted.provider 2500)] := by
    decide +kernel
  obtain ⟨k, k', hk, hk', hkinds⟩ := kind_of_retimed (Scripted.Scenario.generation true)
    (Scripted.Scenario.generation true) (.ofIds ["a"]) 30000 30000 "q" _ _
    (.timedOut Scripted.provider 1500 2500) hattempts hattempts'
  have hdigits : ¬ "503".toList <:+: (toString 1500).toList ∧
      ¬ "503".toList <:+: (toString 2500).toList := by decide +kernel
  refine ⟨hattempts, hattempts', k, hk, ?_⟩
  obtain rfl : k = k' := by
    rcases hkinds with heq | ⟨hin, -⟩ | ⟨-, hin, -⟩
    · exact heq
    · exact absurd hin hdigits.1
    · exact absurd hin hdigits.2
  exact hk'

/-- With 503 milliseconds the run ends as if the model were overloaded, with 504 it does not. -/
theorem kind?_silentRun_ne :
    (silentRun 503).kind? = some .overloaded ∧ (silentRun 504).kind? = some .exhausted := by
  decide +kernel

end AskMetrics.Generation
