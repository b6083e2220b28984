import AskMetrics.Proofs.Generation.Authentication
import AskMetrics.Proofs.Redaction.Idempotence
import AskMetrics.Proofs.Service.Redacted

/-!
# What is told twice

What went wrong in the last call of a run is told in two places: among the attempts, where it is
redacted when it is kept, and in the message to the client, which is redacted as a whole. Both show
the same text. The message begins with some words of its own, in which no match starts and behind
which a word can begin, so the second redaction changes nothing.
-/
namespace AskMetrics.Service

open AskMetrics.Text AskMetrics.Generation AskMetrics.Redaction

/-- What the message says before it tells what went wrong in the last of `n` calls. -/
def heading (n : Nat) : String := s!"Failed to generate PromQL after trying {n} candidate(s): "

section
variable {rule : Rule} {b x a : List Char}

/-- No match starts in a text in which no two characters open a secret. -/
theorem along_of_not_opensSecret (h : rule ∈ rules)
    (hx : (x.tails.all (!opensSecret ·)) = true)
    (hlast : ∀ u ∈ x.getLast?, ∀ a, opensSecret (u :: a) = false) :
    Along (fun b a => matchAt rule.parts ⟨b, a⟩ = none) b x a := by
  refine along_iff_forall.mpr fun y u z hsplit => matchAt_eq_none h ?_
  cases z with
  | nil => exact hlast u (by simp [hsplit]) _
  | cons v z =>
    have htail := List.all_eq_true.mp hx (u :: v :: z)
      ((List.mem_tails _ _).mpr (hsplit ▸ List.suffix_append y _))
    simpa [opensSecret] using htail

/-- No match starts in the word "to": names are longer. -/
theorem matchAt_to_eq_none (h : rule ∈ rules) :
    matchAt rule.parts ⟨b, 't' :: 'o' :: ' ' :: a⟩ = none := by
  rw [Option.eq_none_iff_forall_ne_some]
  intro m hm
  rcases List.mem_cons.mp h with rfl | h
  · obtain ⟨name, p, x, v, hparts⟩ := exists_namedMatch hm
    have hlength : 3 ≤ name.length := hparts.named.le_length (by decide)
    have hfront : List.take 3 ('t' :: 'o' :: ' ' :: a) = name.take 3 := by
      rw [← List.take_append_of_le_length hlength, ← hparts.ahead]
    have hin : ' ' ∈ name.take 3 := by
      rw [← hfront]
      simp
    have hblank : ' ' ∉ name := hparts.named.not_mem (by decide)
    exact hblank (List.mem_of_mem_take hin)
  · obtain ⟨u, hu, hmem, -⟩ := exists_heads_of_mem_laterRules h hm
    obtain rfl : 't' = u := by simpa using hu
    exact absurd hmem (by decide)

theorem toList_heading (n : Nat) : (heading n).toList = "Failed".toList ++ (' ' :: ("to".toList ++
    (" generate PromQL after trying ".toList ++ (n.repr.toList ++ " candidate(s): ".toList)))) := by
  have hfront : "Failed to generate PromQL after trying ".toList =
      "Failed".toList ++ (' ' :: ("to".toList ++ " generate PromQL after trying ".toList)) := by
    decide
  have hsplit : heading n =
      "Failed to generate PromQL after trying " ++ n.repr ++ " candidate(s): " := rfl
  rw [hsplit, String.toList_append, String.toList_append, hfront]
  simp

/-- No match starts in the heading. -/
theorem along_heading (h : rule ∈ rules) (n : Nat) :
    Along (fun b a => matchAt rule.parts ⟨b, a⟩ = none) b (heading n).toList a := by
  have hblank : ∀ a, opensSecret (' ' :: a) = false := opensSecret_cons (by decide)
  have hword : ∀ {x : List Char} {b a}, (x.all isNameChar) = true →
      matchAt rule.parts ⟨b, x ++ a⟩ = none →
      Along (fun b a => matchAt rule.parts ⟨b, a⟩ = none) b x a := fun hx hstart =>
    along_word (List.all_eq_true.mp hx) hstart fun _ _ _ _ => matchAt_inside_eq_none h
  have hwords : ∀ {x : List Char} {b a}, (x.tails.all (!opensSecret ·)) = true →
      x.getLast? = some ' ' → Along (fun b a => matchAt rule.parts ⟨b, a⟩ = none) b x a := by
    intro x b a hx hlast
    refine along_of_not_opensSecret h hx fun u hu => ?_
    obtain rfl : ' ' = u := by simpa [hlast] using hu
    exact hblank
  have hdigits : ∀ u ∈ n.repr.toList, isNumeral u = true := by
    intro u hu
    rw [Nat.repr, String.toList_ofList] at hu
    simp [isNumeral, Nat.isDigit_of_mem_toDigits (by decide) (by decide) hu]
  rw [toList_heading, along_append, along_cons, along_append, along_append, along_append]
  exact ⟨hword (by decide) (matchAt_eq_none h rfl), matchAt_eq_none h (hblank _),
    hword (by decide) (matchAt_to_eq_none h), hwords (by decide +kernel) (by decide),
    along_of_next fun u hu b a => matchAt_eq_none h (opensSecret_of_isNumeral (hdigits u hu) a),
    hwords (by decide +kernel) (by decide)⟩

/-- A redacted text is left as it is behind the heading. -/
theorem redact_heading_append {n : Nat} {text : String} (hlong : '\u017f' ∉ (redact text).toList) :
    redact (heading n ++ redact text) = heading n ++ redact text := by
  rw [toList_redact] at hlong
  have hredacted := redacted_redactChars text.toList
  generalize hy : redactChars text.toList = y at hredacted hlong
  have hopens : Opens (heading n).toList.reverse := by
    rw [toList_heading]
    simpa using (by decide : isWord ' ' = false)
  have hsame := hredacted.redactChars_append_eq hlong (fun rule h _ => along_heading h n) hopens
  rw [← String.toList_inj, toList_redact, String.toList_append, toList_redact, hy, hsame]

end

/-! ## Attempts and messages -/

/-- A text of ASCII characters. -/
def IsAscii (text : String) : Prop := ∀ u ∈ text.toList, u.toNat < 128

theorem isAscii_iff_all {text : String} :
    IsAscii text ↔ (text.toList.all fun u => u.toNat < 128) = true := by
  simp [IsAscii]

/-- A long s is no ASCII character. -/
theorem IsAscii.not_mem {text : String} (h : IsAscii text) : '\u017f' ∉ text.toList :=
  fun hmem => absurd (h _ hmem) (by decide)

theorem IsAscii.redact {text : String} (h : IsAscii text) : IsAscii (redact text) := by
  intro u hu
  rw [toList_redact] at hu
  rcases List.mem_append.mp (redactChars_subset _ hu) with hu | hu
  · exact h u hu
  · have hmarker : (bearerMarker.all fun u => u.toNat < 128) = true := by decide
    simpa using List.all_eq_true.mp hmarker u hu

theorem redact_redact {text : String} (h : IsAscii (redact text)) :
    redact (redact text) = redact text := by
  have hlong := h.not_mem
  rw [toList_redact] at hlong
  rw [← String.toList_inj, toList_redact, toList_redact, redactChars_redactChars hlong]

/-- What a run that has tried all it could tells of its last call is what it keeps of it. -/
theorem exists_last_of_exhausted {σ : Type} {b : Backend σ} {policy : Policy} {request : String}
    {s : σ} {attempted : List String} {detail : String}
    (h : (run b policy request s).1.result = .error (.exhausted attempted detail)) :
    ∃ last, (run b policy request s).1.attempts.getLast? = some last ∧
      last.detail = some detail := by
  by_cases hkey : b.isConfigured = true
  · rw [run_eq_report b policy request s hkey] at h ⊢
    generalize callsOf b policy request s = calls at h ⊢
    have hsum := (report_result_eq_error policy b.id h).symm
    rw [attempts_report, List.nil_append, List.getLast?_map]
    cases hlast : calls.getLast? with
    | none => simp [sumUp, hlast] at hsum
    | some c =>
      refine ⟨_, rfl, ?_⟩
      cases ho : (c.attempt policy b.id).outcome with
      | noAnswer | rejected => simp [sumUp, hlast, ho] at hsum
      | accepted =>
        obtain ⟨q, hq⟩ := (Call.accepted_iff policy b.id).mp ho
        simp [report, hlast, hq] at h
      | failed kind =>
        obtain ⟨f, hf⟩ := Call.exists_failure ho
        simp only [sumUp, List.getLast?_map, hlast, Option.map_some, hf, failedAttempt] at hsum ⊢
        split_ifs at hsum
        obtain ⟨-, hdetail⟩ := GenerationFailure.exhausted.inj hsum
        simpa using hdetail
  · obtain ⟨hrun, -⟩ := run_of_not_configured b policy request s (by simpa using hkey)
    rw [hrun] at h
    cases h

/-- **Told as it is kept.** Redacting an ASCII text gives one, and doing it twice is doing it once.
So what is kept of the attempts of a run stays as it is when it is redacted again; and a client who
is told that all models were tried is told what is kept of the last attempt, behind the heading. -/
theorem retold_as_kept :
    (∀ text : String, IsAscii text → IsAscii (redact text) ∧
      redact (redact text) = redact text) ∧
      ∀ {σ : Type} (b : Backend σ) (policy : Policy) (request : String) (s : σ),
        (∀ attempt ∈ (run b policy request s).1.attempts, ∀ detail ∈ attempt.detail,
          (∃ text, detail = redact text) ∧ (IsAscii detail → redact detail = detail)) ∧
        ∀ attempted detail,
          (run b policy request s).1.result = .error (.exhausted attempted detail) →
          ∃ last, (run b policy request s).1.attempts.getLast? = some last ∧
            last.detail = some detail ∧ (IsAscii detail →
              (Rejection.ofGeneration (.exhausted attempted detail)).message =
                heading attempted.length ++ detail) := by
  refine ⟨fun text hascii => ⟨hascii.redact, redact_redact hascii.redact⟩,
    fun b policy request s => ?_⟩
  have hkept : ∀ attempt ∈ (run b policy request s).1.attempts, ∀ detail ∈ attempt.detail,
      ∃ text, detail = redact text := by
    intro attempt hattempt detail hdetail
    rw [run_attempts_eq] at hattempt
    obtain ⟨c, -, rfl⟩ := List.mem_map.mp hattempt
    exact exists_detail_eq_redact hdetail
  refine ⟨fun attempt hattempt detail hdetail => ?_, fun attempted detail h => ?_⟩
  · obtain ⟨text, rfl⟩ := hkept attempt hattempt detail hdetail
    exact ⟨⟨text, rfl⟩, redact_redact⟩
  · obtain ⟨last, hlast, hdetail⟩ := exists_last_of_exhausted h
    obtain ⟨text, rfl⟩ := hkept last (List.mem_of_getLast? hlast) detail hdetail
    refine ⟨last, hlast, hdetail, fun hascii => ?_⟩
    have hmessage : (GenerationFailure.exhausted attempted (redact text)).message =
        heading attempted.length ++ redact text := rfl
    exact hmessage ▸ redact_heading_append hascii.not_mem

/-- The only model refuses a request and quotes its address, which has the key in it. -/
def refusal : Scripted.Scenario :=
  .ofReplies [.failure (.requestFailed "ai" 400 "bad body for /v1?key=abc")]

/-- What is told of the refusal. -/
def refusalDetail : String :=
  "Request to ai failed with status 400: bad body for /v1?key=[REDACTED]"

theorem retold_as_kept_refusal :
    redact (redact "tokens = Bearer a.b, x?key=c") = redact "tokens = Bearer a.b, x?key=c" ∧
      ∃ last, (run (Scripted.Scenario.generation true) (.ofCandidates (.ofIds ["a"]) 30000) "cpu"
          refusal).1.attempts.getLast? = some last ∧ last.detail = some refusalDetail ∧
        (Rejection.ofGeneration (.exhausted ["a"] refusalDetail)).message =
          heading 1 ++ refusalDetail := by
  obtain ⟨last, hlast, hdetail, hmessage⟩ := (retold_as_kept.2 (Scripted.Scenario.generation true)
    (.ofCandidates (.ofIds ["a"]) 30000) "cpu" refusal).2 ["a"] refusalDetail (by decide +kernel)
  exact ⟨(retold_as_kept.1 _ (isAscii_iff_all.mpr (by decide +kernel))).2, last, hlast, hdetail,
    hmessage (isAscii_iff_all.mpr (by decide +kernel))⟩

end AskMetrics.Service
