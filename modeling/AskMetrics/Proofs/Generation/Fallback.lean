import AskMetrics.Proofs.Distinct
import AskMetrics.Proofs.Generation.Calls
import AskMetrics.Scripted.Scenario

/-!
# Falling back from model to model

A run asks the models in order of priority, each at most once, and goes on only after a failure
that another model may do better with. Its state, its attempts and its result are made by separate
parts of the walk; here they are shown to tell the same story, for every backend.
-/
namespace AskMetrics.Generation

open AskMetrics.Query

namespace WalkState

/-- The state of a walk over `total` models after some outcomes. -/
def after (total : Nat) (state : WalkState) (outcomes : List Outcome) : WalkState :=
  outcomes.foldl (fun state outcome => state.next outcome total) state

@[simp] theorem after_nil (total : Nat) (state : WalkState) : state.after total [] = state := rfl

@[simp] theorem after_cons (total : Nat) (state : WalkState) (outcome : Outcome)
    (outcomes : List Outcome) :
    state.after total (outcome :: outcomes) = (state.next outcome total).after total outcomes := rfl

end WalkState

/-! ## Reports -/

section
variable (policy : Policy) (backendId : String)

@[simp] theorem attempts_report (done : List Attempt) (calls : List Call) :
    (report policy backendId done calls).attempts =
      done ++ calls.map (Call.attempt policy backendId) := by
  unfold report
  split <;> rfl

/-- A report of a query: the last call found it. -/
theorem report_result_eq_ok_iff {calls : List Call} {g : Generated} :
    (report policy backendId [] calls).result = .ok g ↔
      ∃ c, calls.getLast? = some c ∧ c.query? policy backendId = some g.query ∧
        g.candidate = c.candidate.id ∧ g.attempts = calls.length := by
  obtain ⟨query, candidate, attempts⟩ := g
  rcases hlast : calls.getLast? with _ | c
  · simp [report, hlast]
  · rcases hq : c.query? policy backendId with _ | q
    · simp [report, hlast, hq]
    · simp [report, hlast, hq, eq_comm]

/-- A report without a query sums up the attempts. -/
theorem report_result_eq_error {calls : List Call} {f : GenerationFailure}
    (h : (report policy backendId [] calls).result = .error f) :
    f = sumUp (calls.map (Call.attempt policy backendId)) := by
  unfold report at h
  split at h
  · simp at h
  · simpa using h.symm

theorem report_state_eq_succeeded_iff {calls : List Call} :
    (report policy backendId [] calls).state = .succeeded ↔
      ∃ g, (report policy backendId [] calls).result = .ok g := by
  unfold report
  split <;> simp

theorem report_state_of_not_succeeded {calls : List Call}
    (h : (report policy backendId [] calls).state ≠ .succeeded) :
    (report policy backendId [] calls).state = .exhaustedFailed := by
  unfold report at h ⊢
  split at h <;> simp_all

end

/-! ## Failures of whole runs -/

/-- No attempts amount to a list without models. -/
theorem sumUp_eq_noCandidates_iff {attempts : List Attempt} :
    sumUp attempts = .noCandidates ↔ attempts = [] := by
  rw [← List.getLast?_eq_none_iff]
  rcases h : attempts.getLast? with _ | last
  · simp [sumUp, h]
  · rcases ho : last.outcome <;> simp [sumUp, h, ho]
    split_ifs <;> simp

theorem sumUp_ne_notConfigured (attempts : List Attempt) : sumUp attempts ≠ .notConfigured := by
  rcases h : attempts.getLast? with _ | last
  · simp [sumUp, h]
  · rcases ho : last.outcome <;> simp [sumUp, h, ho]
    split_ifs <;> simp

/-! ## The states of conducted calls -/

section
variable (policy : Policy) (backendId : String)

/-- The outcomes that some calls are recorded with. -/
def outcomes (calls : List Call) : List Outcome :=
  calls.map fun c => (c.attempt policy backendId).outcome

variable {policy backendId} {rest : List Candidate} {calls : List Call}

/-- A call that is followed by another one takes the walk to the next model. -/
theorem Conducted.next_state {c : Call} (hlead : leadsOn policy backendId c = true)
    (tail : Conducted (leadsOn policy backendId) rest calls) {index total : Nat}
    (hsize : index + (c.candidate :: rest).length = total) :
    (WalkState.attempting index).next (c.attempt policy backendId).outcome total =
      .attempting (index + 1) := by
  have hshort := tail.candidates_initial.length_le
  have hpos := List.length_pos_iff.mpr tail.ne_nil
  rw [List.length_map] at hshort
  rw [List.length_cons] at hsize
  exact WalkState.next_of_leadsOn hlead (by omega)

/-- Before each call the walk is at the model that is called. -/
theorem Conducted.after_take (h : Conducted (leadsOn policy backendId) rest calls)
    {index total : Nat} (hsize : index + rest.length = total) {k : Nat} (hk : k < calls.length) :
    (WalkState.attempting index).after total ((outcomes policy backendId calls).take k) =
      .attempting (index + k) := by
  induction h generalizing index k with
  | last c => simp_all
  | stop c rest _ => simp_all
  | @next c rest calls hlead tail ih =>
    cases k with
    | zero => simp
    | succ k =>
      rw [outcomes, List.map_cons, List.take_succ_cons, WalkState.after_cons,
        Conducted.next_state hlead tail hsize, ← outcomes,
        ih (by simp at hsize; omega) (by simpa using hk)]
      congr 1
      omega

/-- A last call takes the walk to where the report of it says. -/
theorem after_singleton {c : Call} {index total : Nat}
    (hend : leadsOn policy backendId c = false ∨ total ≤ index + 1) (done : List Attempt) :
    (WalkState.attempting index).after total (outcomes policy backendId [c]) =
      (report policy backendId done [c]).state := by
  have hacc := Call.accepted_iff policy backendId (c := c)
  rcases hq : c.query? policy backendId with _ | q
  · have hne : (c.attempt policy backendId).outcome ≠ .accepted := by simp [hacc, hq]
    simp [outcomes, WalkState.next_of_stop hne hend, report, hq]
  · simp [outcomes, WalkState.next, hacc.mpr ⟨q, hq⟩, report, hq]

/-- After the last call the walk is where the report says. -/
theorem Conducted.after_eq_state (h : Conducted (leadsOn policy backendId) rest calls)
    {index total : Nat} (hsize : index + rest.length = total) (done : List Attempt) :
    (WalkState.attempting index).after total (outcomes policy backendId calls) =
      (report policy backendId done calls).state := by
  induction h generalizing index done with
  | last c => exact after_singleton (.inr (by simp at hsize; omega)) done
  | stop c rest hstop => exact after_singleton (.inl hstop) done
  | @next c rest calls hlead tail ih =>
    rw [report_cons policy backendId done c tail.ne_nil, outcomes, List.map_cons,
      WalkState.after_cons, Conducted.next_state hlead tail hsize, ← outcomes]
    exact ih (by simp at hsize; omega) _

end

/-! ## Runs and their attempts -/

section
variable {σ : Type} (b : Backend σ) (policy : Policy) (request : String) (s : σ)

/-- With a key, a run is the report of its calls. -/
theorem run_eq_report (hkey : b.isConfigured = true) :
    (run b policy request s).1 = report policy b.id [] (callsOf b policy request s) := by
  by_cases hids : policy.candidates.ids = []
  · obtain ⟨hrun, hcalls⟩ := run_of_no_candidates b policy request s hkey hids
    rw [hrun, hcalls]
    rfl
  · exact (run_of_candidates b policy request s hkey hids).2.2

/-- The attempts of a run are its calls, one by one. -/
theorem run_attempts_eq :
    (run b policy request s).1.attempts =
      (callsOf b policy request s).map (Call.attempt policy b.id) := by
  by_cases h : b.isConfigured = true
  · rw [run_eq_report b policy request s h, attempts_report, List.nil_append]
  · obtain ⟨hrun, hcalls⟩ := run_of_not_configured b policy request s (by simpa using h)
    rw [hrun, hcalls, List.map_nil]

/-- With a key, either there are no models and no calls, or the calls are conducted. -/
theorem callsOf_cases (hkey : b.isConfigured = true) :
    (policy.candidates.ids = [] ∧ callsOf b policy request s = []) ∨
      (policy.candidates.ids ≠ [] ∧
        Conducted (leadsOn policy b.id) policy.candidates.toList (callsOf b policy request s)) := by
  by_cases hids : policy.candidates.ids = []
  · exact .inl ⟨hids, (run_of_no_candidates b policy request s hkey hids).2⟩
  · exact .inr ⟨hids, (run_of_candidates b policy request s hkey hids).1⟩

theorem callsOf_candidates_initial (hkey : b.isConfigured = true) :
    (callsOf b policy request s).map (·.candidate) <+: policy.candidates.toList := by
  rcases callsOf_cases b policy request s hkey with ⟨-, hnil⟩ | ⟨-, hconducted⟩
  · simp [hnil]
  · exact hconducted.candidates_initial

theorem leadsOn_of_mem_dropLast_callsOf (hkey : b.isConfigured = true) :
    ∀ c ∈ (callsOf b policy request s).dropLast, leadsOn policy b.id c = true := by
  rcases callsOf_cases b policy request s hkey with ⟨-, hnil⟩ | ⟨-, hconducted⟩
  · simp [hnil]
  · exact hconducted.leadsOn_of_mem_dropLast

/-- The last call leads nowhere or goes to the last model. -/
theorem getLast?_callsOf (hkey : b.isConfigured = true) {c : Call}
    (hc : (callsOf b policy request s).getLast? = some c) :
    leadsOn policy b.id c = false ∨ policy.candidates.ids.getLast? = some c.candidate.id := by
  rcases callsOf_cases b policy request s hkey with ⟨-, hnil⟩ | ⟨-, hconducted⟩
  · simp [hnil] at hc
  · refine (hconducted.ends hc).imp_right fun hlen => ?_
    have hall := hconducted.candidates_initial.eq_of_length (by simpa using hlen)
    rw [← CandidateList.map_id_toList, ← hall, List.map_map, List.getLast?_map, hc]
    rfl

/-- The calls of a run that gives a query: the last one is accepted, and no other. -/
structure Accepts (g : Generated) (earlier : List Call) (c : Call) : Prop where
  result : (run b policy request s).1.result = .ok g
  calls : callsOf b policy request s = earlier ++ [c]
  not_accepted : ∀ d ∈ earlier, (d.attempt policy b.id).outcome ≠ .accepted
  accepted : (c.attempt policy b.id).outcome = .accepted
  query : c.query? policy b.id = some g.query
  candidate : g.candidate = c.candidate.id
  attempts : g.attempts = (callsOf b policy request s).length

theorem exists_accepts {g : Generated} (h : (run b policy request s).1.result = .ok g) :
    ∃ earlier c, Accepts b policy request s g earlier c := by
  have hkey : b.isConfigured = true := by
    by_contra hno
    simp [(run_of_not_configured b policy request s (by simpa using hno)).1] at h
  rcases callsOf_cases b policy request s hkey with ⟨hids, -⟩ | ⟨hids, -⟩
  · simp [(run_of_no_candidates b policy request s hkey hids).1] at h
  have hreport := h
  rw [(run_of_candidates b policy request s hkey hids).2.2, report_result_eq_ok_iff] at hreport
  obtain ⟨c, hlast, hquery, hcandidate, hattempts⟩ := hreport
  refine ⟨(callsOf b policy request s).dropLast, c, h, ?_, fun d hd hacc => ?_,
    (Call.accepted_iff policy b.id).mpr ⟨_, hquery⟩, hquery, hcandidate, hattempts⟩
  · exact (List.dropLast_append_getLast? c hlast).symm
  · have hlead := leadsOn_of_mem_dropLast_callsOf b policy request s hkey d hd
    simp [leadsOn, hacc, Outcome.allowsFallback] at hlead

end

/-! ## Whole runs -/

section
variable {σ : Type} (policy : Policy)

/-- Attempts and calls that go through the models of a policy in order. -/
structure InPriorityOrder (backendId : String) (attempts : List Attempt) (calls : List Call) :
    Prop where
  /-- The attempts name the first models of the list. -/
  names : attempts.map (·.candidate) <+: policy.candidates.ids
  /-- No model is named twice. -/
  nodup : (attempts.map (·.candidate)).Nodup
  /-- The calls go to these models, with their ranks. -/
  asked : calls.map (·.candidate) <+: policy.candidates.toList
  /-- There is one call for each attempt, and the attempt is the record of it. -/
  recorded : attempts = calls.map (Call.attempt policy backendId)
  /-- All attempts but the last one allow another one. -/
  earlier : ∀ a ∈ attempts.dropLast, a.outcome.allowsFallback = true
  /-- The last attempt does not allow another one or was the last model's. -/
  last : ∀ a, attempts.getLast? = some a →
    a.outcome.allowsFallback = false ∨ policy.candidates.ids.getLast? = some a.candidate
  /-- An attempt is made if there is a model. -/
  some_attempt : attempts = [] → policy.candidates.ids = []
  /-- Only the last attempt can be accepted. -/
  accepted_last : ∀ i a, attempts[i]? = some a → a.outcome = .accepted → i + 1 = attempts.length

/-- **Models are asked in order of priority**, whatever a backend with a key replies. -/
theorem run_follows_priority (b : Backend σ) (ids : List String)
    (classifier : CallFailure → FailureClass) (timeoutMs : Nat) (request : String) (s : σ)
    (hkey : b.isConfigured = true) :
    let policy : Policy := ⟨.ofIds ids, classifier, timeoutMs⟩
    InPriorityOrder policy b.id (run b policy request s).1.attempts
      (callsOf b policy request s) := by
  intro policy
  have hattempts := run_attempts_eq b policy request s
  have hcalls := callsOf_candidates_initial b policy request s hkey
  have hinitial : (run b policy request s).1.attempts.map (·.candidate) <+:
      policy.candidates.ids := by
    have h := hcalls.map Candidate.id
    rw [CandidateList.map_id_toList, List.map_map] at h
    rw [hattempts, List.map_map]
    convert h using 2
    funext c
    simp
  have hearlier : ∀ a ∈ (run b policy request s).1.attempts.dropLast,
      a.outcome.allowsFallback = true := by
    rw [hattempts, ← List.map_dropLast]
    intro a ha
    obtain ⟨c, hc, rfl⟩ := List.mem_map.mp ha
    exact leadsOn_of_mem_dropLast_callsOf b policy request s hkey c hc
  refine ⟨hinitial, (CandidateList.nodup_ids_ofIds ids).sublist hinitial.sublist, hcalls, hattempts,
    hearlier, ?last, ?some, ?accepted⟩
  case last =>
    intro a ha
    rw [hattempts, List.getLast?_map] at ha
    obtain ⟨c, hc, rfl⟩ := Option.map_eq_some_iff.mp ha
    rw [Call.attempt_candidate]
    exact getLast?_callsOf b policy request s hkey hc
  case some =>
    intro hnil
    rcases callsOf_cases b policy request s hkey with ⟨hids, -⟩ | ⟨-, hconducted⟩
    · exact hids
    · exact absurd (by simpa [hnil] using hattempts) hconducted.ne_nil
  case accepted =>
    intro i a ha hacc
    have hi := (List.getElem?_eq_some_iff.mp ha).1
    by_contra hlast
    have hmem : a ∈ (run b policy request s).1.attempts.dropLast := by
      rw [List.mem_iff_getElem?]
      exact ⟨i, by rw [List.getElem?_dropLast, if_pos (by omega), ha]⟩
    exact absurd (hearlier a hmem) (by simp [hacc, Outcome.allowsFallback])

/-- The first model is overloaded and the second one answers. -/
theorem run_follows_priority_of_overloaded :
    (Scripted.Scenario.generation true).isConfigured = true ∧
      InPriorityOrder ⟨.ofIds ["a", " b ", "a", "c"], classify, 30000⟩ Scripted.provider
        (run (Scripted.Scenario.generation true) ⟨.ofIds ["a", " b ", "a", "c"], classify, 30000⟩
          "cpu usage" (.ofReplies [.failure Scripted.overloaded, .text "up"])).1.attempts
        (callsOf (Scripted.Scenario.generation true)
          ⟨.ofIds ["a", " b ", "a", "c"], classify, 30000⟩
          "cpu usage" (.ofReplies [.failure Scripted.overloaded, .text "up"])) :=
  ⟨rfl, run_follows_priority (Scripted.Scenario.generation true) ["a", " b ", "a", "c"] classify
    30000 "cpu usage" (.ofReplies [.failure Scripted.overloaded, .text "up"]) rfl⟩

/-- A run whose attempts, state and result tell the same story. -/
structure Consistent (b : Backend σ) (r : Run) (calls : List Call) : Prop where
  /-- There is one call for each attempt, and the attempt is the record of it. -/
  recorded : r.attempts = calls.map (Call.attempt policy b.id)
  /-- Before attempt `k` the walk is at the model at place `k`. -/
  before : ∀ k < r.attempts.length,
    (WalkState.start policy.candidates.size).after policy.candidates.size
      ((r.attempts.map (·.outcome)).take k) = .attempting k
  /-- After the last attempt the walk is where the run says; without a key there is no walk. -/
  final : b.isConfigured = true →
    (WalkState.start policy.candidates.size).after policy.candidates.size
      (r.attempts.map (·.outcome)) = r.state
  /-- A run does not stop halfway. -/
  terminal : r.state.isTerminal = true
  /-- There is a query exactly when the walk has succeeded. -/
  ok_iff_succeeded : (∃ g, r.result = .ok g) ↔ r.state = .succeeded
  /-- There is a query exactly when the last attempt was accepted. -/
  ok_iff_accepted : (∃ g, r.result = .ok g) ↔
    ∃ a, r.attempts.getLast? = some a ∧ a.outcome = .accepted
  /-- The query is the one that screening finds in the reply to the last call. -/
  found : ∀ g, r.result = .ok g → ∃ c t, calls.getLast? = some c ∧ c.reply = .text t ∧
    screen t = .ok (.query g.query) ∧ g.candidate = c.candidate.id ∧
    g.attempts = r.attempts.length
  /-- A run with a key and without a query is summed up by its attempts. -/
  failed : b.isConfigured = true → ∀ f, r.result = .error f → f = sumUp r.attempts
  /-- With a key, the failure for a list without models is given for nothing else. -/
  noCandidates : b.isConfigured = true →
    (r.result = .error .noCandidates ↔ policy.candidates.ids = [])
  /-- The failure for a missing key is given for nothing else. -/
  notConfigured : r.result = .error .notConfigured ↔ b.isConfigured = false
  /-- Without a key nothing is asked. -/
  unasked : b.isConfigured = false → r.attempts = [] ∧ calls = [] ∧ r.state = .exhaustedFailed

variable {policy} {b : Backend σ} {calls : List Call}

/-- A run without a key is consistent. -/
theorem Consistent.of_not_configured (hkey : b.isConfigured = false) :
    Consistent policy b ⟨[], .exhaustedFailed, .error .notConfigured⟩ [] where
  recorded := rfl
  before := by simp
  final := by simp [hkey]
  terminal := rfl
  ok_iff_succeeded := by simp
  ok_iff_accepted := by simp
  found := by simp
  failed := by simp [hkey]
  noCandidates := by simp [hkey]
  notConfigured := by simp [hkey]
  unasked := by simp

/-- A run without models is consistent. -/
theorem Consistent.of_no_candidates (hkey : b.isConfigured = true)
    (hids : policy.candidates.ids = []) :
    Consistent policy b ⟨[], .exhaustedFailed, .error .noCandidates⟩ [] where
  recorded := rfl
  before := by simp
  final := by simp [WalkState.start, CandidateList.size, hids]
  terminal := rfl
  ok_iff_succeeded := by simp
  ok_iff_accepted := by simp
  found := by simp
  failed := by simp [sumUp]
  noCandidates := by simp [hids]
  notConfigured := by simp [hkey]
  unasked := by simp [hkey]

/-- The report of conducted calls is consistent. -/
theorem Consistent.of_conducted (hkey : b.isConfigured = true)
    (hids : policy.candidates.ids ≠ [])
    (h : Conducted (leadsOn policy b.id) policy.candidates.toList calls) :
    Consistent policy b (report policy b.id [] calls) calls := by
  have hattempts : (report policy b.id [] calls).attempts =
      calls.map (Call.attempt policy b.id) := by simp
  have houtcomes : (report policy b.id [] calls).attempts.map (·.outcome) =
      outcomes policy b.id calls := by simp [outcomes]
  have hstart : WalkState.start policy.candidates.size = .attempting 0 := by
    simp [WalkState.start, CandidateList.size, hids]
  have hnone {f : GenerationFailure} (hf : (report policy b.id [] calls).result = .error f) :
      f ≠ .noCandidates ∧ f ≠ .notConfigured := by
    rw [report_result_eq_error policy b.id hf]
    exact ⟨by simp [sumUp_eq_noCandidates_iff, h.ne_nil], sumUp_ne_notConfigured _⟩
  constructor
  case recorded => exact hattempts
  case before =>
    intro k hk
    rw [houtcomes, hstart, h.after_take (by simp) (by simpa using hk), Nat.zero_add]
  case final =>
    intro _
    rw [houtcomes, hstart, h.after_eq_state (by simp) []]
  case terminal =>
    by_cases hs : (report policy b.id [] calls).state = .succeeded
    · rw [hs, WalkState.isTerminal]
    · rw [report_state_of_not_succeeded policy b.id hs, WalkState.isTerminal]
  case ok_iff_succeeded => exact (report_state_eq_succeeded_iff policy b.id).symm
  case ok_iff_accepted =>
    constructor
    · rintro ⟨g, hg⟩
      obtain ⟨c, hc, hq, -⟩ := (report_result_eq_ok_iff policy b.id).mp hg
      refine ⟨c.attempt policy b.id, ?_, (Call.accepted_iff policy b.id).mpr ⟨_, hq⟩⟩
      rw [hattempts, List.getLast?_map, hc, Option.map_some]
    · rintro ⟨a, ha, hacc⟩
      rw [hattempts, List.getLast?_map] at ha
      obtain ⟨c, hc, rfl⟩ := Option.map_eq_some_iff.mp ha
      obtain ⟨q, hq⟩ := (Call.accepted_iff policy b.id).mp hacc
      exact ⟨⟨q, c.candidate.id, calls.length⟩,
        (report_result_eq_ok_iff policy b.id).mpr ⟨c, hc, hq, rfl, rfl⟩⟩
  case found =>
    intro g hg
    obtain ⟨c, hc, hq, hid, hlen⟩ := (report_result_eq_ok_iff policy b.id).mp hg
    obtain ⟨t, ht, hscreen⟩ := (Call.query?_eq_some_iff policy b.id).mp hq
    exact ⟨c, t, hc, ht, hscreen, hid, by rw [hlen, hattempts, List.length_map]⟩
  case failed =>
    intro _ f hf
    rw [hattempts]
    exact report_result_eq_error policy b.id hf
  case noCandidates =>
    intro _
    exact ⟨fun hf => absurd rfl (hnone hf).1, fun hnil => absurd hnil hids⟩
  case notConfigured =>
    exact ⟨fun hf => absurd rfl (hnone hf).2, fun hno => absurd hkey (by simp [hno])⟩
  case unasked => simp [hkey]

variable (policy b)

/-- **State, attempts and result of a run agree**, for every backend. -/
theorem run_simulates_walk (request : String) (s : σ) :
    Consistent policy b (run b policy request s).1 (callsOf b policy request s) := by
  by_cases hkey : b.isConfigured = true
  · by_cases hids : policy.candidates.ids = []
    · obtain ⟨hrun, hcalls⟩ := run_of_no_candidates b policy request s hkey hids
      rw [hrun, hcalls]
      exact .of_no_candidates hkey hids
    · obtain ⟨hconducted, -, hrun⟩ := run_of_candidates b policy request s hkey hids
      rw [hrun]
      exact .of_conducted hkey hids hconducted
  · have hno : b.isConfigured = false := by simpa using hkey
    obtain ⟨hrun, hcalls⟩ := run_of_not_configured b policy request s hno
    rw [hrun, hcalls]
    exact .of_not_configured hno

/-- Without a key a run ends before the walk over its models has begun. -/
theorem run_without_key_ends_early :
    ¬ ∀ (b : Backend Scripted.Scenario) (policy : Policy) (request : String)
      (s : Scripted.Scenario),
      (WalkState.start policy.candidates.size).after policy.candidates.size
        ((run b policy request s).1.attempts.map (·.outcome)) =
          (run b policy request s).1.state := by
  intro h
  have hcase := h (Scripted.Scenario.generation false) (.ofCandidates (.ofIds ["a"]) 30000) "q"
    (.ofReplies [])
  exact absurd hcase (by decide)

end
end AskMetrics.Generation
