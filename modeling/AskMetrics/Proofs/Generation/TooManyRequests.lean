import AskMetrics.Proofs.Generation.Authentication

/-!
# Too many requests

Two failures report status 429: a rate limit, and a failed request with this status. The first is
passing by its kind. The second is known by its message only, where the number of the status is no
marker, so unless something else in it tells of passing trouble it ends the run.
-/
namespace AskMetrics.Generation

open AskMetrics.Text

/-- The words of which one is enough to tell of passing trouble. -/
def troubleMarkers : List String :=
  ["503", "service unavailable", "overloaded", "try again later", "rate limit", "timeout",
    "timed out", "connection reset", "dns error", "network error", "not found", "not supported"]

/-- Some text mentions a marker in some letter case. -/
def Mentioned (texts : List String) (marker : String) : Prop :=
  ∃ text ∈ texts, marker.toList <:+: lowered text.toList

/-- Some texts tell of passing trouble: they mention one of the markers, or that a model is not
available. -/
def TellsOfTrouble (texts : List String) : Prop :=
  (∃ marker ∈ troubleMarkers, Mentioned texts marker) ∨
    Mentioned texts "model" ∧ Mentioned texts "not available"

instance (texts : List String) (marker : String) : Decidable (Mentioned texts marker) :=
  inferInstanceAs (Decidable (∃ text ∈ texts, marker.toList <:+: lowered text.toList))

instance (texts : List String) : Decidable (TellsOfTrouble texts) :=
  inferInstanceAs (Decidable (_ ∨ _))

/-! ## The message of a failed request -/

/-- What stands before the provider, in lower case. -/
def requestWords : List Char := "request to ".toList

/-- What stands behind the provider, but for the last blank. -/
def statusWords : List Char := " failed with status 429:".toList

/-- A marker that has nothing to do with the words around the provider. -/
def isApartFromFrame (w : List Char) : Bool :=
  w.any (!statusWords.contains ·) && !w.contains ':' && !w.contains 'h' &&
    w.tails.all (fun rest => rest.isEmpty || !rest.isPrefixOf " failed wit".toList) &&
    !mentions w requestWords &&
    w.inits.all fun front => front.isEmpty || !front.isSuffixOf requestWords

theorem isApartFromFrame_troubleMarkers :
    ∀ marker ∈ "model" :: "not available" :: troubleMarkers,
      isApartFromFrame marker.toList = true := by
  decide +kernel

section
variable {w x y : List Char} {provider text : String}

theorem foreign_statusWords (h : isApartFromFrame w = true) : Foreign w statusWords := by
  simp only [isApartFromFrame, Bool.and_eq_true, List.any_eq_true, Bool.not_eq_true',
    List.contains_eq_mem, decide_eq_false_iff_not, List.all_eq_true, List.mem_tails,
    Bool.or_eq_true, List.isEmpty_iff] at h
  obtain ⟨⟨⟨⟨⟨hstrange, hcolon⟩, hh⟩, htails⟩, -⟩, -⟩ := h
  -- no rest of the marker goes on into the words, since it would not get past the `h`
  refine ⟨hstrange, ⟨':', by decide, hcolon⟩, " failed wit".toList, 'h', " status 429:".toList,
    by decide, hh, fun rest hrest hpre => (htails rest hrest).resolve_right ?_⟩
  simpa using hpre

/-- Behind the words before the provider, and behind what these end in. -/
theorem infix_append_iff_of_isApartFromFrame (h : isApartFromFrame w = true)
    (hx : x <:+ requestWords) : w <:+: x ++ y ↔ w <:+: y := by
  simp only [isApartFromFrame, Bool.and_eq_true, Bool.not_eq_true', List.all_eq_true,
    List.mem_inits, Bool.or_eq_true, List.isEmpty_iff] at h
  obtain ⟨⟨-, hnot⟩, hinits⟩ := h
  refine infix_append_iff_of_not_begins (fun hin => ?_) fun front hfront hsuffix =>
    (hinits front hfront).resolve_right ?_
  · simp [mentions_iff.mpr (hin.trans hx.isInfix)] at hnot
  · simpa using hsuffix.trans hx

theorem lowered_message_requestFailed :
    lowered (CallFailure.requestFailed provider 429 text).message.toList =
      requestWords ++ (lowered provider.toList ++
        (statusWords ++ ([' '] ++ lowered text.toList))) := by
  have hmessage : (CallFailure.requestFailed provider 429 text).message.toList =
      "Request to ".toList ++ (provider.toList ++
        (" failed with status 429: ".toList ++ text.toList)) := by
    change ("Request to " ++ provider ++ " failed with status " ++ "429" ++ ": " ++ text).toList = _
    simp only [String.toList_append, List.append_assoc]
    rfl
  have hfront : lowered "Request to ".toList = requestWords := by decide
  have hback : lowered " failed with status 429: ".toList = statusWords ++ [' '] := by decide
  rw [hmessage, lowered, List.flatMap_append, List.flatMap_append, List.flatMap_append]
  simp only [lowered] at hfront hback ⊢
  rw [hfront, hback, List.append_assoc]

/-- A marker in the message of a failed request is in the provider's name or in the text. -/
theorem infix_message_iff {marker : String} (h : isApartFromFrame marker.toList = true) :
    marker.toList <:+: lowered (CallFailure.requestFailed provider 429 text).message.toList ↔
      Mentioned [provider, text] marker := by
  rw [lowered_message_requestFailed,
    infix_append_iff_of_isApartFromFrame h (List.suffix_refl _),
    (foreign_statusWords h).infix_append_iff,
    infix_append_iff_of_isApartFromFrame h (by decide)]
  simp [Mentioned]

/-- A failed request with status 429 is passing only if its message says so in other words. -/
theorem isRetryable_requestFailed_iff :
    isRetryable (.requestFailed provider 429 text)
        (lowered (CallFailure.requestFailed provider 429 text).message.toList) = true ↔
      TellsOfTrouble [provider, text] := by
  generalize hlow : lowered (CallFailure.requestFailed provider 429 text).message.toList = low
  have hmentions : ∀ marker ∈ "model" :: "not available" :: troubleMarkers,
      (mentionsString marker low = true ↔ Mentioned [provider, text] marker) := by
    intro marker hmarker
    rw [mentionsString, mentions_iff, ← hlow,
      infix_message_iff (isApartFromFrame_troubleMarkers marker hmarker)]
  have hany : (∃ marker ∈ troubleMarkers, Mentioned [provider, text] marker) ↔
      mentionsAny troubleMarkers low = true := by
    rw [mentionsAny, List.any_eq_true]
    exact exists_congr fun marker => and_congr_right fun hmarker =>
      (hmentions marker (.tail _ (.tail _ hmarker))).symm
  rw [TellsOfTrouble, hany, ← hmentions "model" (by decide),
    ← hmentions "not available" (by decide)]
  have hkind : isPassing (.requestFailed provider 429 text) = false := rfl
  simp only [isRetryable, hkind, isModelMissing, hasOverloadMarker, mentionsAny, troubleMarkers,
    CallFailure.status?, List.any_cons, List.any_nil, Bool.or_eq_true, Bool.and_eq_true]
  simp only [Bool.false_eq_true, or_false, false_or, or_assoc]
  simp

end

/-- **Too many requests**: a failure with status 429 that speaks neither of a rejected key nor of a
quota lets the run go on if it is a rate limit, or if the provider's name or the text tells of
passing trouble; otherwise it ends the run as something unknown. -/
theorem classify_tooManyRequests {f : CallFailure} (hstatus : f.status? = some 429)
    (hkey : hasAuthenticationMarker f.message = false)
    (hquota : ¬ "quota".toList <:+: lowered f.message.toList) :
    (classify f = .retryable ↔ (∃ provider wait text, f = .rateLimited provider wait text) ∨
      ∃ provider text, f = .requestFailed provider 429 text ∧ TellsOfTrouble [provider, text]) ∧
    (classify f = .retryable ∨ classify f = .fatal) := by
  have hread : classify f =
      if isRetryable f (lowered f.message.toList) = true then .retryable else .fatal := by
    have hmention : mentionsString "quota" (lowered f.message.toList) = false := by
      rwa [mentionsString, ← Bool.not_eq_true, mentions_iff]
    have hexceeded : mentionsString "quota exceeded" (lowered f.message.toList) = false := by
      rw [mentionsString, ← Bool.not_eq_true, mentions_iff]
      exact fun hin => hquota (List.IsInfix.trans ⟨[], " exceeded".toList, by decide⟩ hin)
    have hauth : isAuthentication f = false := by
      rw [isAuthentication, hstatus, hkey]
      decide
    simp only [classify, hauth, isQuota, hmention, hexceeded, Bool.and_false, Bool.or_false,
      Bool.false_eq_true, if_false]
  have hretryable : isRetryable f (lowered f.message.toList) = true ↔
      (∃ provider wait text, f = .rateLimited provider wait text) ∨
        ∃ provider text, f = .requestFailed provider 429 text ∧
          TellsOfTrouble [provider, text] := by
    cases f with
    | requestFailed provider status text =>
      obtain rfl : status = 429 := by simpa [CallFailure.status?] using hstatus
      simp [isRetryable_requestFailed_iff]
    | rateLimited provider wait text => simp [isRetryable, isPassing]
    | _ => simp [CallFailure.status?] at hstatus
  rw [hread]
  split_ifs with h
  · simp [hretryable.mp h]
  · simp only [false_iff, or_true, and_true]
    exact fun htells => h (hretryable.mpr htells)

/-- A failed request that goes on by the words of its text. -/
theorem classify_tooManyRequests_slowDown :
    classify (.requestFailed "gemini" 429 "Rate limit reached, slow down") = .retryable :=
  (classify_tooManyRequests (f := .requestFailed "gemini" 429 "Rate limit reached, slow down")
    rfl (by decide +kernel) (by decide +kernel)).1.mpr (.inr ⟨_, _, rfl, by decide +kernel⟩)

/-- A failed request that reports status 429, with nothing of a key or a quota in its message, ends
the run. -/
theorem classify_tooManyRequests_fatal :
    (CallFailure.requestFailed "gemini" 429 "Too many requests").status? = some 429 ∧
      hasAuthenticationMarker
        (CallFailure.requestFailed "gemini" 429 "Too many requests").message = false ∧
      ¬ "quota".toList <:+: lowered
        (CallFailure.requestFailed "gemini" 429 "Too many requests").message.toList ∧
      classify (.requestFailed "gemini" 429 "Too many requests") = .fatal := by
  decide +kernel

end AskMetrics.Generation
