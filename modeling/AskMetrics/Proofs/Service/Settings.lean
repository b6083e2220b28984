import AskMetrics.Proofs.Service.Burst
import AskMetrics.Proofs.Service.Pipeline
import AskMetrics.Proofs.Text.Blank

/-!
# Settings that the service can work with

Variables may be set to anything. What comes of them is either the default or has passed the check
of its setting, so whatever holds of the defaults and of all that passes the check holds of the
settings. From this it follows that two failures far away from the variables cannot occur: a run
without models, and a rate limit that divides by zero.
-/
namespace AskMetrics

open Text

/-- What holds of the default and of all that may be given holds of what is used. -/
theorem forall_getD {α : Type} {P : α → Prop} {given : Option α} {standard : α}
    (hgiven : ∀ a ∈ given, P a) (hstandard : P standard) : P (given.getD standard) := by
  cases given with
  | none => exact hstandard
  | some a => exact hgiven a rfl

/-- A number that has been read is within its bound. -/
theorem le_of_readNat? {most n : Nat} {s : List Char} (h : readNat? most s = some n) :
    n ≤ most := by
  simp only [readNat?] at h
  generalize Double.ofDigits _ = read at h
  split_ifs at h with _ hle
  obtain rfl := Option.some.inj h
  exact hle

/-! ## Models -/

namespace Generation

/-- A list of models without gaps: there is one, none comes twice, and none is blank. -/
structure CandidateList.Usable (list : CandidateList) : Prop where
  ne_nil : list.ids ≠ []
  nodup : list.ids.Nodup
  not_blank : ∀ id ∈ list.ids, isBlankString id = false

/-- The models of a list that names one. -/
theorem CandidateList.usable_ofIds {ids : List String} (h : (ofIds ids).ids ≠ []) :
    (ofIds ids).Usable where
  ne_nil := h
  nodup := nodup_ids_ofIds ids
  not_blank id hid := by
    rw [ids_ofIds, List.mem_eraseDups, List.mem_filter, List.mem_map] at hid
    obtain ⟨⟨text, -, rfl⟩, hne⟩ := hid
    rw [← Bool.not_eq_true]
    intro hblank
    have hempty := trimString_eq_empty_iff.mpr hblank
    rw [trimString_trimString] at hempty
    simp [hempty] at hne

theorem CandidateList.usable_standard : standard.Usable :=
  usable_ofIds (by decide +kernel)

/-- A text that names no model is no list. -/
theorem CandidateList.usable_of_parse? {csv : String} {list : CandidateList}
    (h : parse? csv = some list) : list.Usable := by
  simp only [parse?] at h
  split_ifs at h with hempty
  obtain rfl := Option.some.inj h
  exact usable_ofIds (by simpa using hempty)

/-- A run over at least one model does not end for the lack of models. -/
theorem run_ne_noCandidates {σ : Type} (b : Backend σ) {policy : Policy} (request : String)
    (s : σ) (h : policy.candidates.ids ≠ []) :
    (run b policy request s).1.result ≠ .error .noCandidates := by
  by_cases hkey : b.isConfigured = true
  · obtain ⟨hconducted, -, hrun⟩ := run_of_candidates b policy request s hkey h
    intro hresult
    rw [hrun] at hresult
    have hsum := (report_result_eq_error policy b.id hresult).symm
    rw [sumUp_eq_noCandidates_iff, List.map_eq_nil_iff] at hsum
    exact hconducted.ne_nil hsum
  · rw [(run_of_not_configured b policy request s (by simpa using hkey)).1]
    simp

end Generation

namespace Service

open Generation Prometheus

/-! ## Variables -/

theorem Variables.le_of_positive? {vars : Variables} {name : String} {most n : Nat}
    (h : vars.positive? name most = some n) : 0 < n ∧ n ≤ most := by
  obtain ⟨hread, hpos⟩ := Option.filter_eq_some_iff.mp h
  refine ⟨by simpa using hpos, ?_⟩
  simp only [nat?] at hread
  obtain ⟨text, -, hread⟩ := Option.bind_eq_some_iff.mp hread
  exact le_of_readNat? hread

/-- A positive number of seconds is at least one second. -/
theorem Variables.second_le {vars : Variables} {name : String} {most : Nat} :
    ∀ ms ∈ (vars.positive? name most).map Config.seconds, 1000 ≤ ms := by
  intro ms hms
  obtain ⟨n, hn, rfl⟩ := Option.map_eq_some_iff.mp hms
  have hpos := (le_of_positive? hn).1
  rw [Config.seconds]
  omega

/-- The words of a variable are trimmed, and none is empty. -/
theorem Variables.trimmed_of_mem_words {vars : Variables} {name word : String}
    (h : word ∈ vars.words name) : trimString word = word ∧ word ≠ "" := by
  cases hvalue : vars name with
  | none => simp [words, hvalue] at h
  | some value =>
    simp only [words, hvalue, List.mem_map, List.mem_filter] at h
    obtain ⟨_, ⟨⟨piece, -, rfl⟩, hne⟩, rfl⟩ := h
    exact ⟨by simp [trimString, trim_trim], by simpa using hne⟩

/-! ## Settings -/

namespace Config

/-- Settings that the service can work with. -/
structure Usable (c : Config) : Prop where
  candidates : c.candidates.Usable
  requests_pos : 1 ≤ c.rateLimitRequests
  requests_le : c.rateLimitRequests ≤ max32
  /-- The window of the rate limit is at least a second. -/
  window : 1000 ≤ c.rateLimitWindowMs
  /-- So is the time limit of a call. -/
  timeout : 1000 ≤ c.generationTimeoutMs
  origins : ∀ origin ∈ c.corsOrigins, trimString origin = origin ∧ origin ≠ ""

/-- The defaults are usable. -/
theorem usable_ofDeployment (deployment : Deployment) : (ofDeployment deployment).Usable where
  candidates := CandidateList.usable_standard
  requests_pos := by cases deployment <;> decide
  requests_le := by cases deployment <;> decide
  window := by cases deployment <;> decide
  timeout := by cases deployment <;> decide
  origins := by simp [ofDeployment]

/-- **The settings are usable**, whatever the variables say. -/
theorem usable_ofVariables (vars : Variables) : (ofVariables vars).Usable := by
  have hdefaults := usable_ofDeployment (.ofVariables vars)
  have hrequests : 1 ≤ (ofVariables vars).rateLimitRequests ∧
      (ofVariables vars).rateLimitRequests ≤ max32 :=
    forall_getD (P := fun n => 1 ≤ n ∧ n ≤ max32) (fun _ hn => Variables.le_of_positive? hn)
      ⟨hdefaults.requests_pos, hdefaults.requests_le⟩
  exact {
    candidates := forall_getD (fun list hlist => by
      obtain ⟨csv, -, hparse⟩ := Option.bind_eq_some_iff.mp hlist
      exact CandidateList.usable_of_parse? hparse) hdefaults.candidates
    requests_pos := hrequests.1
    requests_le := hrequests.2
    window := forall_getD Variables.second_le hdefaults.window
    timeout := forall_getD Variables.second_le hdefaults.timeout
    origins := fun _ horigin => Variables.trimmed_of_mem_words horigin }

end Config

/-! ## Questions -/

/-- With a model, no question fails for the lack of one. -/
theorem Pipeline.ask_ne_noCandidates {σ : Type} (p : Pipeline σ) (question : Question)
    (cache : CatalogCache) (s : σ) (h : p.policy.candidates.ids ≠ []) :
    (p.ask question cache s).1.result ≠ .error (.generation .noCandidates) := by
  have hcourse := p.course_ask question cache s
  generalize (p.ask question cache s).1.result = result at hcourse ⊢
  generalize p.contacts question cache s = contacts at hcourse
  generalize (p.ask question cache s).2.1 = after at hcourse
  cases hcourse with
  | vague => simp
  | failed _ hrun =>
    rintro ⟨⟩
    exact run_ne_noCandidates p.generation (cleaned question) s h hrun
  | lookedUp =>
    intro hresult
    obtain ⟨hresult, -⟩ := lookUp_eq_error hresult
    simp at hresult

/-! ## The rate limit -/

/-- A quotient, unless the divisor is zero. -/
def quotient? (n d : Nat) : Option Nat := if d = 0 then none else some (n / d)

theorem quotient?_eq_some {n d : Nat} (h : 0 < d) : quotient? n d = some (n / d) :=
  if_neg h.ne'

namespace RateLimit

/-- The time for each request of a window, or of a minute if there is no window, unless a divisor is
zero. -/
def period? (window requests : Nat) : Option Nat := do
  let period ← quotient? window requests
  if period = 0 then quotient? (60 * nanosPerSecond) requests else some period

/-- The settings of the rate limit, unless a divisor is zero. -/
def ofConfig? (c : Config) : Option RateLimit := do
  let requests := max 1 c.rateLimitRequests
  let period ← period? (c.rateLimitWindowMs * nanosPerMilli) requests
  return { enabled := c.rateLimitEnabled, requests, period, idleAfter := c.rateLimitWindowMs }

theorem period?_eq_some {window requests : Nat} (h : 0 < requests) :
    period? window requests =
      some (if window / requests = 0 then 60 * nanosPerSecond / requests
        else window / requests) := by
  rw [period?, quotient?_eq_some h, Option.bind_eq_bind, Option.bind_some, quotient?_eq_some h]
  split_ifs <;> rfl

theorem ofConfig?_eq_some (c : Config) : ofConfig? c = some (ofConfig c) := by
  have hpos : 0 < max 1 c.rateLimitRequests := by omega
  simp only [ofConfig?, period?_eq_some hpos, Option.bind_eq_bind, Option.bind_some, ofConfig]
  rfl

end RateLimit

/-! ## What the service relies on -/

/-- What the service can rely on with its settings. -/
structure Config.Served (c : Config) : Prop where
  usable : c.Usable
  /-- No question fails for the lack of models, whatever the backends do. -/
  candidates : ∀ {σ : Type} (generation : Backend σ) (metrics : MetricsBackend σ) (clock : Clock σ)
    (question : Question) (cache : CatalogCache) (s : σ),
    ((Pipeline.ofConfig c generation metrics clock).ask question cache s).1.result ≠
      .error (.generation .noCandidates)
  /-- No divisor is zero when the rate limit is set up, and the number of requests is taken as it
  is. -/
  divided : RateLimit.ofConfig? c = some (.ofConfig c)
  requests : (RateLimit.ofConfig c).requests = c.rateLimitRequests

theorem Config.served_of_usable {c : Config} (h : c.Usable) : c.Served where
  usable := h
  candidates _ _ _ question cache s :=
    Pipeline.ask_ne_noCandidates _ question cache s h.candidates.ne_nil
  divided := RateLimit.ofConfig?_eq_some c
  requests := Nat.max_eq_right h.requests_pos

/-- **Whatever the variables say**, there is always a model to ask, and the rate limit can be set
up. -/
theorem served_ofVariables (vars : Variables) : (Config.ofVariables vars).Served :=
  Config.served_of_usable (Config.usable_ofVariables vars)

end Service
end AskMetrics
