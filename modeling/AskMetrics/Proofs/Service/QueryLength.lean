import AskMetrics.Proofs.Query.WindowLength
import AskMetrics.Proofs.Service.Pipeline
import AskMetrics.Scripted.Scenario

/-!
# How long the query of a finding is

A finding shows the query that a model gave with the window of the question in it. The query itself
was checked, also for its length, but the text with the window is not checked again, so a finding
can show a text that would not be accepted as a query.
-/
namespace AskMetrics.Service.Pipeline

open AskMetrics.Generation AskMetrics.Query AskMetrics.Scripted

section
variable {σ : Type} (p : Pipeline σ) (question : Question) (cache : CatalogCache) (s : σ)

/-- A finding shows the query that screening found in the last reply, with the window of the
question in it. -/
theorem exists_sized_of_ask {f : Finding} (h : (p.ask question cache s).1.result = .ok f) :
    ∃ c reply g, (p.calls question s).getLast? = some c ∧ c.reply = .text reply ∧
      screen reply = .ok (.query g) ∧ f.query = (g.withWindow f.windowMinutes).text ∧
      Sized g.text.toList f.windowMinutes f.query.toList := by
  have hcourse := p.course_ask question cache s
  generalize (p.ask question cache s).1.result = result at h hcourse
  generalize p.contacts question cache s = contacts at hcourse
  generalize (p.ask question cache s).2.1 = after at hcourse
  cases hcourse with
  | vague => simp at h
  | failed => simp at h
  | @lookedUp _ g hrun =>
    obtain ⟨-, hf⟩ := lookUp_eq_ok_iff.mp h
    obtain ⟨earlier, c, hg⟩ := exists_accepts p.generation p.policy (cleaned question) s hrun
    obtain ⟨reply, hreply, hscreen⟩ := (Call.query?_eq_some_iff _ _).mp hg.query
    have hlast : (p.calls question s).getLast? = some c := by
      rw [calls, hg.calls, List.getLast?_concat]
    obtain ⟨-, hpasses, htext⟩ := screen_eq_query_iff.mp hscreen
    have hwindow : f.windowMinutes = window question := by rw [hf]
    have hquery : f.query = (g.query.withWindow (window question)).text := by rw [hf]
    refine ⟨c, reply, g.query, hlast, hreply, hscreen, by rw [hquery, hwindow], ?_⟩
    rw [hquery, hwindow, CheckedQuery.withWindow, htext, CheckedQuery.toList_text_ofText,
      CheckedQuery.toList_text_ofText]
    exact hpasses.sized (window question)

/-- **The length of each finding's query**, for all models, metrics backends, clocks and caches: it
is that of a checked query with the window of the finding. So it is within the limit without a
window and with one of less than ten minutes. -/
theorem length_query_of_ask {f : Finding} (h : (p.ask question cache s).1.result = .ok f) :
    (∃ c reply g, (p.calls question s).getLast? = some c ∧ c.reply = .text reply ∧
      screen reply = .ok (.query g) ∧ f.query = (g.withWindow f.windowMinutes).text ∧
      Sized g.text.toList f.windowMinutes f.query.toList) ∧
    (f.windowMinutes.getD 0 < 10 → f.query.toList.length ≤ maxLength) := by
  have hsized := p.exists_sized_of_ask question cache s h
  refine ⟨hsized, fun hshort => ?_⟩
  obtain ⟨c, reply, g, -, -, -, -, hsized⟩ := hsized
  have hfour : ∀ n < 10, (minutesSelector n).length = 4 := by decide
  have hlength := hsized.four_mul_length_le
  rw [hfour _ hshort, Nat.max_self] at hlength
  omega

end

/-! ## A query that is too long -/

/-- The pipeline with a single model. -/
def single : Pipeline Scenario :=
  .ofConfig { Config.ofDeployment .development with candidates := .ofIds ["a"] }
    (Scenario.generation true) (Scenario.metrics "fixture") Scenario.clock

/-- The question of CPU usage over some minutes, with a fixed answer of the model. -/
def askSingle (answer : List Char) (minutes : Nat) : Except AskFailure Finding :=
  (single.ask ⟨"CPU usage", some minutes⟩ single.initialCache
    (.ofReplies [.text (.ofList answer)])).1.result

/-- An answer that is accepted comes with the window in it. -/
theorem askSingle_of_screen {answer : List Char} {q : CheckedQuery}
    (hscreen : screen (.ofList answer) = .ok (.query q)) (minutes : Nat) (hpos : minutes ≠ 0) :
    askSingle answer minutes =
      .ok ⟨"CPU usage", (q.withWindow (some minutes)).text, some minutes, "a", 1⟩ := by
  have hcleaned : cleaned ⟨"CPU usage", some minutes⟩ = "CPU usage" := by
    have hsanitize : Request.sanitize "CPU usage" = "CPU usage" := by decide +kernel
    rw [cleaned, hsanitize]
  have hclear : Request.isLowIntent (cleaned ⟨"CPU usage", some minutes⟩) = false := by
    rw [hcleaned]
    decide +kernel
  have hwindow : window ⟨"CPU usage", some minutes⟩ = some minutes := by
    have hdetect : Request.detectWindow "CPU usage" = none := by decide +kernel
    rw [window, hcleaned, hdetect]
    simp [Request.reconcile, Request.positive, Nat.pos_of_ne_zero hpos]
  have hids : single.policy.candidates.ids = ["a"] := by decide +kernel
  have hmodels : single.policy.candidates.toList = [⟨"a", 0⟩] := by
    rw [CandidateList.toList, hids]
    rfl
  have hstart : WalkState.start single.policy.candidates.size = .attempting 0 := by
    rw [CandidateList.size, hids]
    rfl
  have hrun : ∃ t : Scenario, t.listings = [] ∧ ∃ run, run.result = .ok ⟨q, "a", 1⟩ ∧
      single.generated ⟨"CPU usage", some minutes⟩ (.ofReplies [.text (.ofList answer)]) =
        (run, t) := by
    simp only [generated, run, hmodels, hstart, walk]
    simp [single, ofConfig, Scenario.generation, Scenario.nextReply, Scenario.ofReplies, judge_text,
      hscreen]
  obtain ⟨t, hlistings, run, hresult, hrun⟩ := hrun
  have hempty : (single.initialCache.current single.clock single.metrics t).1.catalog.isEmpty =
      true := by
    cases t
    cases hlistings
    rfl
  have houtcome := single.outcome_of_ok _ single.initialCache
    (.ofReplies [.text (.ofList answer)]) hclear (by rw [hrun, hresult])
  rw [outcome, Prod.mk.injEq, hrun] at houtcome
  rw [askSingle, houtcome.1, lookUp_eq_ok_iff, hcleaned, hwindow]
  exact ⟨.inl hempty, rfl⟩

/-- An answer that is exactly as long as a query may be. -/
def longestAnswer : List Char :=
  "rate(cpu_seconds\x7bjob=\"".toList ++ List.replicate 471 'a' ++ "\"\x7d[5m])".toList

theorem normalize_longestAnswer : normalize longestAnswer = longestAnswer := by decide +kernel

theorem passes_longestAnswer : Passes longestAnswer :=
  brokenRule?_eq_none_iff.mp (by decide +kernel)

theorem screen_longestAnswer :
    screen (.ofList longestAnswer) = .ok (.query (.ofText longestAnswer)) := by
  rw [screen_eq_query_iff, String.toList_ofList, normalize_longestAnswer]
  refine ⟨fun hdeclines => ?_, passes_longestAnswer, rfl⟩
  have hlength := congrArg List.length hdeclines
  revert hlength
  decide +kernel

theorem length_query_of_askSingle_longestAnswer :
    ∃ f, askSingle longestAnswer 9 = .ok f ∧ f.windowMinutes.getD 0 < 10 ∧
      f.query.toList.length ≤ maxLength := by
  have hfound := askSingle_of_screen screen_longestAnswer 9 (by decide)
  refine ⟨_, hfound, by decide, ?_⟩
  rw [askSingle] at hfound
  exact (single.length_query_of_ask _ _ _ hfound).2 (by decide)

/-- A window of an hour makes the longest query one character too long, and the finding shows it: a
text that would not be accepted as a query. -/
theorem exists_overlong_query :
    ∃ f, askSingle longestAnswer 60 = .ok f ∧ f.query.toList.length = maxLength + 1 ∧
      brokenRule? f.query.toList = some .proseContamination := by
  have hfound := askSingle_of_screen screen_longestAnswer 60 (by decide)
  have hlength : (replaceRanges longestAnswer (some 60)).length = maxLength + 1 := by decide +kernel
  have hagain : brokenRule? (replaceRanges longestAnswer (some 60)) = some .proseContamination := by
    decide +kernel
  refine ⟨_, hfound, ?_⟩
  rw [CheckedQuery.withWindow, CheckedQuery.toList_text_ofText, CheckedQuery.toList_text_ofText]
  exact ⟨hlength, hagain⟩

end AskMetrics.Service.Pipeline
