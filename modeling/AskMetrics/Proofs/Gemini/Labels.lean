import AskMetrics.Gemini.Client
import AskMetrics.Proofs.Generation.Authentication
import AskMetrics.Proofs.Redaction.Kept

/-!
# Labels of errors

The name of an error's status and its reasons are put behind its message, so that what they tell of
a rejected key stays visible when credentials are taken out. It does, unless the message ends in an
open credential: then the first label is read as its value, and taken out.
-/
namespace AskMetrics.Gemini

open AskMetrics.Redaction AskMetrics.Text Generation Http

/-- What a label can tell of a rejected key. -/
def keyMarkers : List String := ["API_KEY", "PERMISSION_DENIED", "UNAUTHENTICATED"]

/-! ## Labels -/

section
variable {label : List Char}

theorem exists_intercalate_cons (separator first : List Char) (rest : List (List Char)) :
    ∃ y, separator.intercalate (first :: rest) = first ++ y := by
  cases rest with
  | nil => exact ⟨[], by simp⟩
  | cons second rest =>
    exact ⟨separator ++ separator.intercalate (second :: rest), by
      simp [List.intercalate_cons_cons]⟩

/-- A later part of a joined text has the separator before it. -/
theorem exists_intercalate_of_mem (separator : List Char) {rest : List (List Char)}
    (h : label ∈ rest) (first : List Char) :
    ∃ x y, separator.intercalate (first :: rest) = x ++ (separator ++ (label ++ y)) := by
  induction rest generalizing first with
  | nil => simp at h
  | cons second rest ih =>
    cases List.mem_cons.mp h with
    | inl heq =>
      obtain ⟨y, hy⟩ := exists_intercalate_cons separator second rest
      exact ⟨first, y, by rw [heq]; simp [List.intercalate_cons_cons, hy]⟩
    | inr hmem =>
      obtain ⟨x, y, hxy⟩ := ih hmem second
      exact ⟨first ++ separator ++ x, y, by simp [List.intercalate_cons_cons, hxy]⟩

end

namespace ErrorDetail

/-- The name of the status and the reasons. -/
def labels (e : ErrorDetail) : List String := e.status.toList ++ e.texts "reason"

/-- Whether the message ends in an open credential, so that the bracket of the first label would be
read as its value. -/
def leavesOpen (e : ErrorDetail) : Bool :=
  Redaction.leavesOpen e.message.toList (if e.status.isSome then '(' else '[')

/-- The labels that no credential of the message goes on into. -/
def visibleLabels (e : ErrorDetail) : List String :=
  if e.leavesOpen then e.labels.tail else e.labels

variable {e : ErrorDetail} {label first : String} {rest : List String} {x : List Char}

/-- What stands before a reason. -/
theorem shielded_of_mem_reasons (h : label ∈ first :: rest) (hx : label ∈ rest ∨
      EndsIn (isShut · = true) x ∨ Redaction.leavesOpen x '[' = false) :
    Shielded label.toList (x ++ (" [" ++ ", ".intercalate (first :: rest) ++ "]").toList) := by
  rw [String.toList_append, String.toList_append, String.toList_intercalate, List.map_cons]
  by_cases hmem : label ∈ rest
  · obtain ⟨front, y, hsplit⟩ := exists_intercalate_of_mem ", ".toList
      (List.mem_map_of_mem (f := String.toList) hmem) first.toList
    refine ⟨x ++ " [".toList ++ front ++ [','], [], y ++ [']'], by simp,
      .inl (EndsIn.append_left ⟨',', rfl, by decide⟩ _), ?_⟩
    rw [hsplit]
    simp
  · obtain rfl : label = first := (List.mem_cons.mp h).resolve_right hmem
    obtain ⟨y, hsplit⟩ := exists_intercalate_cons ", ".toList label.toList (rest.map String.toList)
    refine ⟨x, ['['], y ++ [']'], by simp [isShut], (hx.resolve_left hmem).imp_right fun hopen =>
      ⟨'[', rfl, hopen⟩, ?_⟩
    rw [hsplit]
    simp

theorem mem_visibleLabels :
    label ∈ e.visibleLabels ↔ label ∈ e.labels.tail ∨ label ∈ e.labels ∧ e.leavesOpen = false := by
  cases hopen : e.leavesOpen with
  | false => simpa [visibleLabels, hopen] using List.mem_of_mem_tail
  | true => simp [visibleLabels, hopen]

/-- A visible label has a bracket or a comma before it, and the first label only has the message
before that. -/
theorem shielded_of_mem_visibleLabels (h : label ∈ e.visibleLabels) :
    Shielded label.toList e.describe.toList := by
  rw [mem_visibleLabels] at h
  cases hstatus : e.status with
  | none =>
    cases hreasons : e.texts "reason" with
    | nil => simp [labels, hstatus, hreasons] at h
    | cons first rest =>
      simp only [labels, leavesOpen, hstatus, hreasons] at h
      have hlabel : label ∈ rest ∨ label ∈ first :: rest ∧
          Redaction.leavesOpen e.message.toList '[' = false := by
        simpa using h
      have hshielded := shielded_of_mem_reasons (hlabel.elim (List.mem_cons_of_mem first) (·.1))
        (hlabel.imp_right fun hopen => .inr hopen.2)
      simpa [describe, hstatus, hreasons] using hshielded
  | some status =>
    simp only [labels, leavesOpen, hstatus] at h
    have hlabel : label ∈ e.texts "reason" ∨ label = status ∧
        Redaction.leavesOpen e.message.toList '(' = false := by
      have hcases : label ∈ e.texts "reason" ∨ (label = status ∨ label ∈ e.texts "reason") ∧
          Redaction.leavesOpen e.message.toList '(' = false := by
        simpa using h
      tauto
    rcases hlabel with hreason | ⟨rfl, hopen⟩
    · obtain ⟨first, rest, hreasons⟩ := List.exists_cons_of_ne_nil (List.ne_nil_of_mem hreason)
      have hend : EndsIn (isShut · = true)
          (e.message.toList ++ " (".toList ++ status.toList ++ [')']) :=
        .append_left ⟨')', rfl, by decide⟩ _
      have hshielded := shielded_of_mem_reasons (hreasons ▸ hreason) (.inr (.inl hend))
      simpa [describe, hstatus, hreasons, toString] using hshielded
    · by_cases hreasons : e.texts "reason" = []
      · refine ⟨e.message.toList, ['('], [')'], by simp [isShut], .inr ⟨'(', rfl, hopen⟩, ?_⟩
        simp [describe, hstatus, hreasons, toString]
      · refine ⟨e.message.toList, ['('],
          ')' :: (" [" ++ ", ".intercalate (e.texts "reason") ++ "]").toList, by simp [isShut],
          .inr ⟨'(', rfl, hopen⟩, ?_⟩
        simp [describe, hstatus, hreasons, toString]

end ErrorDetail

/-! ## What labels tell -/

/-- Whether a label tells of a rejected key, and what it says up to there is calm. -/
def tellsOfKey (label : String) : Bool :=
  label.toList.inits.any fun s => isCalm s && keyMarkers.any fun m => m.toList.isSuffixOf s

theorem tellsOfKey_iff {label : String} : tellsOfKey label = true ↔
    ∃ before, ∃ m ∈ keyMarkers, ∃ after, label.toList = before ++ m.toList ++ after ∧
      isCalm (before ++ m.toList) = true := by
  simp only [tellsOfKey, List.any_eq_true, List.mem_inits, Bool.and_eq_true,
    List.isSuffixOf_iff_suffix]
  constructor
  · rintro ⟨_, ⟨after, hlabel⟩, hcalm, m, hm, before, rfl⟩
    exact ⟨before, m, hm, after, hlabel.symm, hcalm⟩
  · rintro ⟨before, m, hm, after, hlabel, hcalm⟩
    exact ⟨_, ⟨after, hlabel.symm⟩, hcalm, m, hm, before, rfl⟩

/-- A text that contains what labels tell of a rejected key has a marker. -/
theorem hasAuthenticationMarker_of_infix {m text : String} (hm : m ∈ keyMarkers)
    (h : m.toList <:+: text.toList) : hasAuthenticationMarker text = true := by
  have hlow : lowered m.toList <:+: lowered text.toList := h.flatMap lowerChar
  rw [hasAuthenticationMarker_iff]
  simp only [keyMarkers, List.mem_cons, List.not_mem_nil, or_false] at hm
  rcases hm with rfl | rfl | rfl
  · exact .inl ⟨"API_KEY", by decide, h⟩
  · exact .inr ⟨"permission_denied", by decide, hlow⟩
  · exact .inr ⟨"unauthenticated", by decide, hlow⟩

/-- Redaction keeps what the visible labels tell of a rejected key. -/
theorem hasAuthenticationMarker_of_visible {e : ErrorDetail}
    (h : e.visibleLabels.any tellsOfKey = true) :
    hasAuthenticationMarker (redact e.describe) = true := by
  obtain ⟨label, hlabel, htells⟩ := List.any_eq_true.mp h
  obtain ⟨before, m, hm, after, hsplit, hcalm⟩ := tellsOfKey_iff.mp htells
  have hshielded : Shielded (before ++ m.toList) e.describe.toList :=
    .of_append (hsplit ▸ ErrorDetail.shielded_of_mem_visibleLabels hlabel)
  have hkept := hshielded.infix_redactChars (calm_of_isCalm hcalm)
  refine hasAuthenticationMarker_of_infix hm ?_
  rw [redact, String.toList_ofList]
  exact (List.suffix_append before m.toList).isInfix.trans hkept

/-! ## Failures with labels -/

/-- The failure that a response with an error stands for. -/
theorem interpret_of_parse {r : Response} {e : ErrorDetail} (hfail : r.isSuccess = false)
    (hlimit : r.status ≠ 429) (hbody : Json.parse ErrorDetail.ofJson r.body = .ok e) :
    interpret r = .error (.requestFailed provider r.status (redact e.describe)) := by
  simp [interpret, hfail, interpretFailure, hbody, hlimit, Except.toOption]

/-- What has a marker still has it with other text around it. -/
theorem hasAuthenticationMarker_mono {text message : String} (h : text.toList <:+: message.toList)
    (hmarker : hasAuthenticationMarker text = true) : hasAuthenticationMarker message = true := by
  rw [hasAuthenticationMarker_iff] at hmarker ⊢
  exact hmarker.imp (fun ⟨w, hw, hin⟩ => ⟨w, hw, hin.trans h⟩)
    fun ⟨w, hw, hin⟩ => ⟨w, hw, hin.trans (h.flatMap lowerChar)⟩

/-- A failure is read as a rejected key if its status or its text says so. -/
theorem classify_requestFailed {backend text : String} {status : Nat}
    (h : status = 401 ∨ status = 403 ∨ hasAuthenticationMarker text = true) :
    classify (.requestFailed backend status text) = .authentication := by
  rw [classify_eq_authentication_iff]
  simp only [isAuthentication, CallFailure.status?, Bool.or_eq_true]
  rcases h with rfl | rfl | hmarker
  · exact .inl (.inl rfl)
  · exact .inl (.inr rfl)
  · have hend : text.toList <:+ (CallFailure.requestFailed backend status text).message.toList :=
      ⟨("Request to " ++ backend ++ " failed with status " ++ toString status ++ ": ").toList, by
        rw [← String.toList_append]
        rfl⟩
    exact .inr (hasAuthenticationMarker_mono hend.isInfix hmarker)

/-- **Errors that tell of a rejected key.** When a response is not a success and has an error in it,
the failure that it stands for is read as a rejected key if its status says so, or a label that the
message does not go on into, whatever else the error holds. -/
theorem classify_interpret {r : Response} {e : ErrorDetail} (hfail : r.isSuccess = false)
    (hlimit : r.status ≠ 429) (hbody : Json.parse ErrorDetail.ofJson r.body = .ok e)
    (h : r.status = 401 ∨ r.status = 403 ∨ e.visibleLabels.any tellsOfKey = true) :
    ∃ f, interpret r = .error f ∧ f = .requestFailed provider r.status (redact e.describe) ∧
      classify f = .authentication :=
  ⟨_, interpret_of_parse hfail hlimit hbody, rfl,
    classify_requestFailed (h.imp_right (.imp_right hasAuthenticationMarker_of_visible))⟩

/-- The name of the status stays visible behind a credential that is complete. -/
theorem classify_interpret_closed :
    let r : Response := ⟨400, [], "\x7b\"error\": \x7b\"message\": \"Invalid token: abc\", " ++
      "\"status\": \"PERMISSION_DENIED\"\x7d\x7d"⟩
    ∃ f, interpret r = .error f ∧
      f = .requestFailed provider 400 "Invalid token: [REDACTED] (PERMISSION_DENIED)" ∧
      classify f = .authentication := by
  intro r
  have hread : (Json.parse ErrorDetail.ofJson r.body).toOption.map
      (fun e => (e.describe, e.visibleLabels)) =
        some ("Invalid token: abc (PERMISSION_DENIED)", ["PERMISSION_DENIED"]) := by
    decide +kernel
  obtain ⟨e, he, heq⟩ := Option.map_eq_some_iff.mp hread
  obtain ⟨hdescribe, hvisible⟩ := Prod.mk.inj heq
  have hbody : Json.parse ErrorDetail.ofJson r.body = .ok e := by
    cases hparse : Json.parse ErrorDetail.ofJson r.body with
    | error fault => simp [hparse, Except.toOption] at he
    | ok detail => simpa [hparse, Except.toOption] using he
  obtain ⟨f, hf, hfailure, hclass⟩ := classify_interpret (r := r) (by decide) (by decide) hbody
    (.inr (.inr (by rw [hvisible]; decide +kernel)))
  refine ⟨f, hf, ?_, hclass⟩
  rw [hfailure, hdescribe]
  decide +kernel

/-- Behind one that is open it is taken out, and the failure is not read as a rejected key. -/
theorem classify_interpret_open :
    let r : Response := ⟨400, [], "\x7b\"error\": \x7b\"message\": \"Invalid token:\", " ++
      "\"status\": \"UNAUTHENTICATED\"\x7d\x7d"⟩
    (Json.parse ErrorDetail.ofJson r.body).toOption.map (·.labels) = some ["UNAUTHENTICATED"] ∧
      interpret r = .error (.requestFailed provider 400 "Invalid token: [REDACTED]") ∧
      classify (.requestFailed provider 400 "Invalid token: [REDACTED]") = .fatal := by
  decide +kernel

end AskMetrics.Gemini
