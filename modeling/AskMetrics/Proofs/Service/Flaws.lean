import AskMetrics.Proofs.Text.Blank
import AskMetrics.Proofs.Text.Word
import AskMetrics.Service.Input
import Mathlib.Data.List.Nodup
import Mathlib.Data.List.TakeWhile

/-!
# Wrong fields are all reported

A route reads its input loosely, checks every field and reports all that is wrong together. The
errors are collected apart from the values, so there might be a rejection without errors, or values
of an input that has some. Here what can be wrong with an input is told as a list of flaws, without
how it is looked for. An input is rejected exactly when it has a flaw, the rejection lists its flaws
and nothing else, and what the route works with otherwise is what the input says.
-/
namespace AskMetrics.Service

open AskMetrics.Text Prometheus

/-! ## Flaws -/

/-- What can be wrong with a field of an input. -/
structure Flaw (ι : Type) where
  field : String
  /-- What the client is told. -/
  message : String
  /-- Whether it is wrong. -/
  Shows : ι → Prop

/-- The error that tells of a flaw. -/
def Flaw.error {ι : Type} (flaw : Flaw ι) : FieldError := ⟨flaw.field, flaw.message⟩

section
variable {ι α : Type} {input : ι} {flaw : Flaw ι} {flaws more : List (Flaw ι)}
  {errors others : List FieldError}

/-- The errors of an input: of a list of flaws those that show, in the order of the list and each
one once. -/
inductive Reports (input : ι) : List (Flaw ι) → List FieldError → Prop
  | nil : Reports input [] []
  | shows {flaw : Flaw ι} {flaws : List (Flaw ι)} {errors : List FieldError}
    (h : flaw.Shows input) (rest : Reports input flaws errors) :
    Reports input (flaw :: flaws) (flaw.error :: errors)
  | absent {flaw : Flaw ι} {flaws : List (Flaw ι)} {errors : List FieldError}
    (h : ¬ flaw.Shows input) (rest : Reports input flaws errors) :
    Reports input (flaw :: flaws) errors

namespace Reports

theorem append (h : Reports input flaws errors) (h' : Reports input more others) :
    Reports input (flaws ++ more) (errors ++ others) := by
  induction h with
  | nil => exact h'
  | shows hshows _ ih => exact .shows hshows ih
  | absent habsent _ ih => exact .absent habsent ih

/-- The report of one flaw. -/
theorem singleton {present : Bool} (h : present = true ↔ flaw.Shows input) :
    Reports input [flaw] (if present then [flaw.error] else []) := by
  cases present with
  | true => exact .shows (h.mp rfl) .nil
  | false => exact .absent (fun hshows => Bool.false_ne_true (h.mpr hshows)) .nil

theorem mem_iff (h : Reports input flaws errors) {e : FieldError} :
    e ∈ errors ↔ ∃ flaw ∈ flaws, flaw.Shows input ∧ e = flaw.error := by
  induction h with
  | nil => simp
  | shows hshows _ ih => simp [ih, hshows]
  | absent habsent _ ih => simp [ih, habsent]

theorem eq_nil_iff (h : Reports input flaws errors) :
    errors = [] ↔ ∀ flaw ∈ flaws, ¬ flaw.Shows input := by
  induction h with
  | nil => simp
  | shows hshows _ ih => simp [hshows]
  | absent habsent _ ih => simp [ih, habsent]

/-- No field is listed twice if flaws of one field exclude each other. -/
theorem nodup_fields (h : Reports input flaws errors)
    (hexclusive : flaws.Pairwise fun flaw other =>
      flaw.field = other.field → flaw.Shows input → ¬ other.Shows input) :
    (errors.map (·.field)).Nodup := by
  induction h with
  | nil => exact .nil
  | @shows flaw flaws errors hshows hrest ih =>
    obtain ⟨hflaw, hflaws⟩ := List.pairwise_cons.mp hexclusive
    refine List.nodup_cons.mpr ⟨fun hmem => ?_, ih hflaws⟩
    obtain ⟨e, he, hfield⟩ := List.mem_map.mp hmem
    obtain ⟨other, hother, hshown, rfl⟩ := hrest.mem_iff.mp he
    exact hflaw other hother hfield.symm hshows hshown
  | absent _ _ ih => exact ih (List.pairwise_cons.mp hexclusive).2

end Reports

/-- What a check makes of an input when it accounts for all flaws. -/
structure Accounts (flaws : List (Flaw ι)) (message : String) (Makes : ι → α → Prop) (input : ι)
    (result : Except Rejection α) : Prop where
  /-- The input is rejected exactly when it has a flaw. -/
  rejects : (∃ r, result = .error r) ↔ ∃ flaw ∈ flaws, flaw.Shows input
  /-- A rejection lists the flaws, at least one, and each field once. -/
  lists : ∀ r, result = .error r → ∃ errors, Reports input flaws errors ∧ errors ≠ [] ∧
    (errors.map (·.field)).Nodup ∧ r = ⟨.validationError, message, some (.fields errors)⟩
  /-- Without a flaw the route works with what the input says. -/
  makes : ∀ a, result = .ok a → Makes input a

/-- A check that serves an input without errors, and rejects any other with its errors. -/
theorem Accounts.of_reports {message : String} {Makes : ι → α → Prop} {result : Except Rejection α}
    (hreports : Reports input flaws errors) (hfields : (errors.map (·.field)).Nodup)
    (hserved : errors = [] → ∃ a, result = .ok a ∧ Makes input a)
    (hrejected : errors ≠ [] → result = .error (.validation message errors)) :
    Accounts flaws message Makes input result := by
  have hflaw : errors ≠ [] ↔ ∃ flaw ∈ flaws, flaw.Shows input := by
    simpa using hreports.eq_nil_iff.not
  by_cases hnone : errors = []
  · obtain ⟨a, rfl, ha⟩ := hserved hnone
    exact {
      rejects := by simp [← hflaw, hnone]
      lists := by simp
      makes := by simpa using ha }
  · have herror := hrejected hnone
    have hdetail : Rejection.validation message errors =
        ⟨.validationError, message, some (.fields errors)⟩ := by
      simp [Rejection.validation, hnone]
    have hresult : ∀ r, result = .error r →
        r = ⟨.validationError, message, some (.fields errors)⟩ := fun r hr =>
      (Except.error.inj (hr.symm.trans herror)).trans hdetail
    exact {
      rejects := by simp [← hflaw, hnone, herror]
      lists := fun r hr => ⟨errors, hreports, hnone, hfields, hresult r hr⟩
      makes := by simp [herror] }

end

/-! ## Parameters -/

/-- A parameter is given with the text `t`: more than blanks, and without blanks at the edges. -/
def IsGiven (parameter : Option String) (t : String) : Prop :=
  ∃ s, parameter = some s ∧ (∃ u ∈ s.toList, isBlank u = false) ∧ t = trimString s

/-- A parameter is the time `d`, a finite number. -/
def IsTime (parameter : Option String) (d : Double) : Prop :=
  ∃ s, parameter = some s ∧ Double.read? (trim s.toList) = some d ∧ d.isFinite = true

/-- Digits of any script and a unit: seconds, minutes, hours or days. -/
def IsStep (t : String) : Prop :=
  ∃ digits unit, t.toList = digits ++ [unit] ∧ digits ≠ [] ∧ (∀ u ∈ digits, isDecimal u = true) ∧
    unit ∈ ['s', 'm', 'h', 'd']

section
variable {parameter : Option String} {s : List Char} {t : String} {d : Double}

theorem presentText_eq_some_iff : presentText parameter = some t ↔ IsGiven parameter t := by
  have hgiven : ∀ s, trimString s ≠ "" ↔ ∃ u ∈ s.toList, isBlank u = false := by
    intro s
    rw [ne_eq, trimString_eq_empty_iff]
    simp [isBlankString]
  rw [presentText, Option.filter_eq_some_iff, Option.map_eq_some_iff]
  constructor
  · rintro ⟨⟨s, hs, rfl⟩, hne⟩
    exact ⟨s, hs, (hgiven s).mp (by simpa using hne), rfl⟩
  · rintro ⟨s, hs, hmore, rfl⟩
    exact ⟨⟨s, hs, rfl⟩, by simpa using (hgiven s).mpr hmore⟩

theorem timestamp?_eq_some_iff : timestamp? parameter = some d ↔ IsTime parameter d := by
  simp only [timestamp?, Option.bind_eq_bind, Option.bind_eq_some_iff,
    Option.ite_none_right_eq_some, Option.some.injEq]
  constructor
  · rintro ⟨s, hs, d, hread, hfinite, rfl⟩
    exact ⟨s, hs, hread, hfinite⟩
  · rintro ⟨s, hs, hread, hfinite⟩
    exact ⟨s, hs, d, hread, hfinite, rfl⟩

theorem isValidStep_iff : isValidStep t.toList = true ↔ IsStep t := by
  have hletter : ∀ u ∈ ['s', 'm', 'h', 'd'], u.isAlpha = true :=
    List.all_eq_true.mp (by decide)
  have hunit : ∀ u ∈ ['s', 'm', 'h', 'd'], isDecimal u = false :=
    fun u hu => isDecimal_of_isAlpha (hletter u hu)
  constructor
  · intro h
    simp only [isValidStep, Bool.and_eq_true, Bool.or_eq_true, beq_iff_eq] at h
    obtain ⟨hdigits, hone⟩ := h
    have hone : ∃ unit ∈ ['s', 'm', 'h', 'd'], List.dropWhile isDecimal t.toList = [unit] := by
      simpa [or_assoc] using hone
    obtain ⟨unit, hmem, hrest⟩ := hone
    refine ⟨t.toList.takeWhile isDecimal, unit, ?_, by simpa using hdigits,
      fun u hu => List.mem_takeWhile_imp hu, hmem⟩
    rw [← hrest, List.takeWhile_append_dropWhile]
  · rintro ⟨digits, unit, ht, hne, hdigits, hmem⟩
    have htake : t.toList.takeWhile isDecimal = digits := by
      simp [ht, List.takeWhile_append_of_pos hdigits, hunit unit hmem]
    have hdrop : List.dropWhile isDecimal t.toList = [unit] := by
      simp [ht, List.dropWhile_append_of_pos hdigits, hunit unit hmem]
    simpa [isValidStep, htake, hdrop, hne, or_assoc] using hmem

end

/-! ## Queries over a range -/

namespace RangeInput

/-- A step is given that is none. -/
def stepFlaw : Flaw RangeInput :=
  ⟨"step", "Step must be in format: 15s, 1m, 1h, etc.",
    fun input => ∃ t, IsGiven input.step t ∧ ¬ IsStep t⟩

/-- What can be wrong with the parameters of a query over a range, in the order of the report. -/
def flaws : List (Flaw RangeInput) :=
  [⟨"query", "PromQL query is required", fun input => ¬ ∃ t, IsGiven input.query t⟩,
    ⟨"start", "Start must be a valid timestamp", fun input => ¬ ∃ d, IsTime input.start d⟩,
    ⟨"end", "End must be a valid timestamp", fun input => ¬ ∃ d, IsTime input.finish d⟩,
    stepFlaw]

/-- The query that parameters make. -/
structure Makes (input : RangeInput) (q : RangeQuery) : Prop where
  query : IsGiven input.query q.query
  start : IsTime input.start q.start
  finish : IsTime input.finish q.finish
  /-- The step is the one that is given, and the usual one otherwise. -/
  step : IsGiven input.step q.step ∨ (¬ ∃ t, IsGiven input.step t) ∧ q.step = "15s"

variable (input : RangeInput)

theorem reports_missing {α : Type} {value : Option α} {Is : α → Prop} {field message : String}
    {Shows : RangeInput → Prop} (hvalue : ∀ a, value = some a ↔ Is a)
    (hshows : Shows input ↔ ¬ ∃ a, Is a) :
    Reports input [⟨field, message, Shows⟩] (missing field message value) := by
  have hnone : value.isNone = true ↔ Shows input := by
    rw [hshows, Option.isNone_iff_eq_none, Option.eq_none_iff_forall_ne_some]
    simp [hvalue]
  exact .singleton hnone

theorem reports_stepErrors : Reports input [stepFlaw] (stepErrors (presentText input.step)) := by
  have hshows : stepFlaw.Shows input ↔
      ∃ t, presentText input.step = some t ∧ isValidStep t.toList = false := by
    simp [stepFlaw, presentText_eq_some_iff, ← isValidStep_iff]
  cases hstep : presentText input.step with
  | none => exact .absent (by simp [hshows, hstep]) .nil
  | some t =>
    by_cases h : isValidStep t.toList = true
    · rw [stepErrors, if_pos h]
      exact .absent (by simp [hshows, hstep, h]) .nil
    · rw [stepErrors, if_neg h]
      exact .shows (hshows.mpr ⟨t, hstep, by simpa using h⟩) .nil

theorem reports_errors : Reports input flaws input.errors := by
  have hquery : ∀ t, presentText input.query = some t ↔ IsGiven input.query t :=
    fun _ => presentText_eq_some_iff
  have hstart : ∀ d, timestamp? input.start = some d ↔ IsTime input.start d :=
    fun _ => timestamp?_eq_some_iff
  have hfinish : ∀ d, timestamp? input.finish = some d ↔ IsTime input.finish d :=
    fun _ => timestamp?_eq_some_iff
  exact (((reports_missing input hquery .rfl).append (reports_missing input hstart .rfl)).append
    (reports_missing input hfinish .rfl)).append input.reports_stepErrors

/-- Without errors there are all values, and they make the query. -/
theorem exists_makes (h : input.errors = []) : ∃ q, input.check = .ok q ∧ input.Makes q := by
  have hnone : ∀ flaw ∈ flaws, ¬ flaw.Shows input := input.reports_errors.eq_nil_iff.mp h
  simp only [flaws, List.forall_mem_cons, not_not] at hnone
  obtain ⟨⟨query, hquery⟩, ⟨start, hstart⟩, ⟨finish, hfinish⟩, -⟩ := hnone
  refine ⟨⟨query, start, finish, (presentText input.step).getD defaultStep⟩, ?_,
    ⟨hquery, hstart, hfinish, ?_⟩⟩
  · simp [check, presentText_eq_some_iff.mpr hquery, timestamp?_eq_some_iff.mpr hstart,
      timestamp?_eq_some_iff.mpr hfinish, h]
  · cases hstep : presentText input.step with
    | none =>
      refine .inr ⟨?_, rfl⟩
      rintro ⟨t, ht⟩
      simp [presentText_eq_some_iff.mpr ht] at hstep
    | some t => exact .inl (presentText_eq_some_iff.mp hstep)

/-- With an error no query is made, whatever values there are. -/
theorem check_of_errors (h : input.errors ≠ []) :
    input.check = .error (.validation "Invalid query parameters" input.errors) := by
  rw [check]
  split
  · simp [h]
  · rfl

theorem nodup_fields : (input.errors.map (·.field)).Nodup := by
  refine input.reports_errors.nodup_fields ?_
  have hfields : (flaws.map (·.field)).Nodup := by decide
  exact (List.pairwise_map.mp hfields).imp fun hne heq => absurd heq hne

end RangeInput

/-! ## Questions -/

namespace QuestionInput

/-- What can be wrong with the text of a question. -/
def queryFlaws : List (Flaw QuestionInput) :=
  [⟨"query", "Query is required", fun input => input.query = none⟩,
    ⟨"query", "Query must be at least 3 characters",
      fun input => ∃ s, input.query = some s ∧ (trimString s).length < 3⟩,
    ⟨"query", "Query must not exceed 500 characters",
      fun input => ∃ s, input.query = some s ∧ 500 < (trimString s).length⟩]

/-- A window is given that is too short or too long. -/
def windowFlaw : Flaw QuestionInput :=
  ⟨"lookback_minutes", "Lookback must be between 1 and 10080 minutes",
    fun input => ∃ minutes, input.windowMinutes = some minutes ∧ ¬ (1 ≤ minutes ∧ minutes ≤ 10080)⟩

/-- What can be wrong with the body of a question, in the order of the report. -/
def flaws : List (Flaw QuestionInput) := queryFlaws ++ [windowFlaw]

/-- The question that a body makes. -/
structure Makes (input : QuestionInput) (question : Question) : Prop where
  text : ∃ s, input.query = some s ∧ question.text = trimString s
  /-- The window is the one that is given, and there is none otherwise. -/
  window : question.windowMinutes.map Int.ofNat = input.windowMinutes

variable (input : QuestionInput)

theorem reports_queryErrors : Reports input queryFlaws input.queryErrors := by
  cases hquery : input.query with
  | none =>
    have herrors : input.queryErrors = [⟨"query", "Query is required"⟩] := by
      simp [queryErrors, hquery]
    rw [herrors]
    exact .shows hquery (.absent (by simp [hquery]) (.absent (by simp [hquery]) .nil))
  | some s =>
    have hgiven : input.query ≠ none := by simp [hquery]
    have herrors : input.queryErrors =
        if (trimString s).length < 3 then [⟨"query", "Query must be at least 3 characters"⟩]
        else if 500 < (trimString s).length then
          [⟨"query", "Query must not exceed 500 characters"⟩]
        else [] := by
      simp [queryErrors, text, hquery, minRequestLength, maxRequestLength]
    rw [herrors]
    refine .absent hgiven ?_
    split_ifs with hshort hlong
    · exact .shows ⟨s, hquery, hshort⟩ (.absent (by simp [hquery]; omega) .nil)
    · exact .absent (by simpa [hquery] using hshort) (.shows ⟨s, hquery, hlong⟩ .nil)
    · exact .absent (by simpa [hquery] using hshort) (.absent (by simpa [hquery] using hlong) .nil)

theorem isAllowedWindow_iff {minutes : Int} :
    isAllowedWindow minutes = true ↔ 1 ≤ minutes ∧ minutes ≤ 10080 := by
  have hmost : (maxRequestWindow : Int) = 10080 := rfl
  simp [isAllowedWindow, hmost]

theorem reports_windowErrors : Reports input [windowFlaw] input.windowErrors := by
  cases hwindow : input.windowMinutes with
  | none =>
    have herrors : input.windowErrors = [] := by simp [windowErrors, hwindow]
    rw [herrors]
    exact .absent (by simp [windowFlaw, hwindow]) .nil
  | some minutes =>
    have herrors : input.windowErrors =
        if isAllowedWindow minutes then [] else [windowFlaw.error] := by
      simp only [windowErrors, hwindow]
      rfl
    rw [herrors]
    split_ifs with h
    · exact .absent (by simpa [windowFlaw, hwindow] using isAllowedWindow_iff.mp h) .nil
    · exact .shows ⟨minutes, hwindow, mt isAllowedWindow_iff.mpr h⟩ .nil

theorem reports_errors : Reports input flaws (input.queryErrors ++ input.windowErrors) :=
  input.reports_queryErrors.append input.reports_windowErrors

/-- The flaws of a text exclude each other. -/
theorem nodup_fields : ((input.queryErrors ++ input.windowErrors).map (·.field)).Nodup := by
  refine input.reports_errors.nodup_fields ?_
  cases hquery : input.query with
  | none => simp [flaws, queryFlaws, windowFlaw, hquery]
  | some s =>
    have hlengths : (trimString s).length < 3 → (trimString s).length ≤ 500 := by omega
    simpa [flaws, queryFlaws, windowFlaw, hquery] using hlengths

/-- Without errors the body makes a question, with the window as it is. -/
theorem exists_makes (h : input.queryErrors ++ input.windowErrors = []) :
    ∃ question, input.check = .ok question ∧ input.Makes question := by
  have hnone : ∀ flaw ∈ flaws, ¬ flaw.Shows input := input.reports_errors.eq_nil_iff.mp h
  simp only [flaws, queryFlaws, windowFlaw, List.cons_append, List.nil_append,
    List.forall_mem_cons] at hnone
  obtain ⟨hgiven, -, -, hwindow, -⟩ := hnone
  refine ⟨⟨input.text, input.windowMinutes.map Int.toNat⟩, by simp [check, h], ?_, ?_⟩
  · obtain ⟨s, hs⟩ := Option.ne_none_iff_exists'.mp hgiven
    exact ⟨s, hs, by simp [text, hs]⟩
  · cases hminutes : input.windowMinutes with
    | none => rfl
    | some minutes =>
      have hpos : 1 ≤ minutes := (not_not.mp fun hout => hwindow ⟨minutes, hminutes, hout⟩).1
      simp
      omega

theorem check_of_errors (h : input.queryErrors ++ input.windowErrors ≠ []) :
    input.check = .error (.validation "Validation failed"
      (input.queryErrors ++ input.windowErrors)) := by
  simp only [check]
  rw [if_neg (by simpa using h)]

end QuestionInput

/-- **Wrong fields are all reported**: both checks reject an input exactly when it has a flaw, list
its flaws in order with each field once, and otherwise work with what the input says. -/
theorem checks_account (range : RangeInput) (question : QuestionInput) :
    Accounts RangeInput.flaws "Invalid query parameters" RangeInput.Makes range range.check ∧
      Accounts QuestionInput.flaws "Validation failed" QuestionInput.Makes question
        question.check :=
  ⟨.of_reports range.reports_errors range.nodup_fields range.exists_makes range.check_of_errors,
    .of_reports question.reports_errors question.nodup_fields question.exists_makes
      question.check_of_errors⟩

/-- A missing query, a time in words and a step that is none, beside a time that is right. -/
example :
    RangeInput.check ⟨none, some "yesterday", some " 1699565400.5", some "15 seconds"⟩ =
      .error ⟨.validationError, "Invalid query parameters", some (.fields
        [⟨"query", "PromQL query is required"⟩, ⟨"start", "Start must be a valid timestamp"⟩,
          ⟨"step", "Step must be in format: 15s, 1m, 1h, etc."⟩])⟩ := by
  decide +kernel

end AskMetrics.Service
