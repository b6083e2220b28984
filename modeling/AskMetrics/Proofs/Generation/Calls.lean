import AskMetrics.Generation.Run
import AskMetrics.Proofs.Generation.Candidates
import Mathlib.Data.List.Basic

/-!
# The calls of a run

A run only shows its attempts. What it asked of the backend is seen from the other side: a backend
can be made to keep a record of its calls, with the replies that it gave, and answers as before.
The calls of a run follow one discipline, said here without the states of the walk: models are
called in order, a call that allows it is followed by a call to the next model, and any other call
is the last one. The run is a function of its calls. The models that a walk takes one by one from
its list are those at the places that its states name (`walk_drop`).
-/
namespace AskMetrics.Generation

open AskMetrics.Query

/-- A call with the reply that it got. -/
structure Call where
  candidate : Candidate
  prompt : String
  reply : Reply
  deriving DecidableEq, Repr

/-- The backend that answers as before and keeps its calls on record. -/
def Backend.recorded {σ : Type} (b : Backend σ) : Backend (σ × List Call) where
  id := b.id
  isConfigured := b.isConfigured
  call candidate prompt s :=
    let (reply, next) := b.call candidate prompt s.1
    (reply, next, s.2 ++ [⟨candidate, prompt, reply⟩])

@[simp] theorem Backend.isConfigured_recorded {σ : Type} (b : Backend σ) :
    b.recorded.isConfigured = b.isConfigured := rfl

/-- The calls that a backend gets in a run. -/
def callsOf {σ : Type} (b : Backend σ) (policy : Policy) (request : String) (s : σ) : List Call :=
  (run b.recorded policy request (s, [])).2.2

/-- How a text is judged depends on its screening only. -/
theorem judge_text (policy : Policy) (backendId candidate text : String) :
    judge policy backendId candidate (.text text) =
      match screen text with
      | .ok (.query q) => (⟨candidate, .accepted, none⟩, some q)
      | .ok .declined => (⟨candidate, .noAnswer, none⟩, none)
      | .error v => (⟨candidate, .rejected v, some (rejectionDetail v)⟩, none) := by
  unfold judge
  rcases h : screen text with v | ⟨q | _⟩ <;> simp only [h]

namespace Call
variable (policy : Policy) (backendId : String)

/-- The attempt that a call is recorded as. -/
def attempt (c : Call) : Attempt := (judge policy backendId c.candidate.id c.reply).1

/-- The query in the reply to a call. -/
def query? (c : Call) : Option CheckedQuery := (judge policy backendId c.candidate.id c.reply).2

@[simp] theorem attempt_candidate (c : Call) :
    (c.attempt policy backendId).candidate = c.candidate.id := by
  obtain ⟨candidate, prompt, reply⟩ := c
  cases reply with
  | failure f => rfl
  | silence => rfl
  | text s =>
    simp only [attempt, judge_text]
    split <;> rfl

/-- The query of a call is the one that screening finds in the text of the reply. -/
theorem query?_eq_some_iff {c : Call} {q : CheckedQuery} :
    c.query? policy backendId = some q ↔
      ∃ t, c.reply = .text t ∧ screen t = .ok (.query q) := by
  obtain ⟨candidate, prompt, reply⟩ := c
  cases reply with
  | failure f => exact ⟨nofun, nofun⟩
  | silence => exact ⟨nofun, nofun⟩
  | text s =>
    rcases h : screen s with v | ⟨q' | _⟩ <;> simp [query?, judge_text, h]

/-- A call is accepted exactly when there is a query in its reply. -/
theorem accepted_iff {c : Call} :
    (c.attempt policy backendId).outcome = .accepted ↔
      ∃ q, c.query? policy backendId = some q := by
  obtain ⟨candidate, prompt, reply⟩ := c
  cases reply with
  | failure f => exact ⟨nofun, nofun⟩
  | silence => exact ⟨nofun, nofun⟩
  | text s =>
    rcases h : screen s with v | ⟨q' | _⟩ <;> simp [attempt, query?, judge_text, h]

/-- An accepted call does not lead on to the next model. -/
theorem query?_eq_none_of_allowsFallback {c : Call}
    (h : (c.attempt policy backendId).outcome.allowsFallback = true) :
    c.query? policy backendId = none := by
  rw [Option.eq_none_iff_forall_ne_some]
  intro q hq
  rw [(accepted_iff policy backendId).mpr ⟨q, hq⟩] at h
  exact absurd h (by decide)

end Call

/-! ## The discipline of calls -/

/-- The calls that may be made to the models that are left; `leadsOn` says after which calls the
next model is tried. -/
inductive Conducted (leadsOn : Call → Bool) : List Candidate → List Call → Prop
  /-- The last model is called. -/
  | last (c : Call) : Conducted leadsOn [c.candidate] [c]
  /-- A call ends the walk. -/
  | stop (c : Call) (rest : List Candidate) (h : leadsOn c = false) :
    Conducted leadsOn (c.candidate :: rest) [c]
  /-- A call leads on to the next model. -/
  | next (c : Call) {rest : List Candidate} {calls : List Call} (h : leadsOn c = true)
      (tail : Conducted leadsOn rest calls) :
    Conducted leadsOn (c.candidate :: rest) (c :: calls)

namespace Conducted
variable {leadsOn : Call → Bool} {rest : List Candidate} {calls : List Call}

theorem ne_nil (h : Conducted leadsOn rest calls) : calls ≠ [] := by
  cases h <;> simp

/-- No model is left out and none is called twice. -/
theorem candidates_initial (h : Conducted leadsOn rest calls) :
    calls.map (·.candidate) <+: rest := by
  induction h with
  | last c => simp
  | stop c rest _ => exact ⟨rest, rfl⟩
  | next c _ _ ih => exact List.cons_prefix_cons.mpr ⟨rfl, ih⟩

/-- All calls but the last one lead on. -/
theorem leadsOn_of_mem_dropLast (h : Conducted leadsOn rest calls) :
    ∀ c ∈ calls.dropLast, leadsOn c = true := by
  induction h with
  | last c => simp
  | stop c rest _ => simp
  | next c hc tail ih =>
    rw [List.dropLast_cons_of_ne_nil tail.ne_nil]
    intro d hd
    rcases List.mem_cons.mp hd with rfl | hd
    · exact hc
    · exact ih d hd

/-- The last call ends the walk or is made to the last model. -/
theorem ends (h : Conducted leadsOn rest calls) {c : Call} (hc : calls.getLast? = some c) :
    leadsOn c = false ∨ calls.length = rest.length := by
  induction h with
  | last c' => simp
  | stop c' rest h' =>
    obtain rfl : c' = c := by simpa using hc
    exact .inl h'
  | next c' _ tail ih =>
    rw [List.getLast?_cons_of_ne_nil tail.ne_nil] at hc
    simpa using ih hc

end Conducted

/-! ## Runs and their calls -/

section
variable (policy : Policy) (backendId : String)

/-- Whether the next model is tried after a call. -/
def leadsOn (c : Call) : Bool := (c.attempt policy backendId).outcome.allowsFallback

/-- The run that some calls amount to, after some attempts that are done already. -/
def report (done : List Attempt) (calls : List Call) : Run :=
  let attempts := done ++ calls.map (Call.attempt policy backendId)
  match calls.getLast?.bind fun c => (c.query? policy backendId).map (c.candidate.id, ·) with
  | some (candidate, query) => ⟨attempts, .succeeded, .ok ⟨query, candidate, attempts.length⟩⟩
  | none => ⟨attempts, .exhaustedFailed, .error (sumUp attempts)⟩

theorem report_cons (done : List Attempt) (c : Call) {calls : List Call} (h : calls ≠ []) :
    report policy backendId done (c :: calls) =
      report policy backendId (done ++ [c.attempt policy backendId]) calls := by
  simp [report, List.getLast?_cons_of_ne_nil h]

end

/-! ## Backends that answer alike -/

/-- `b` answers like `b'`; `f` forgets what `b` alone keeps in its state. -/
structure Backend.Simulates {σ τ : Type} (f : τ → σ) (b : Backend τ) (b' : Backend σ) : Prop where
  sameId : b'.id = b.id
  sameKey : b'.isConfigured = b.isConfigured
  sameReply : ∀ candidate prompt s, b'.call candidate prompt (f s) =
    ((b.call candidate prompt s).1, f (b.call candidate prompt s).2)

namespace Backend

theorem simulates_recorded {σ : Type} (b : Backend σ) : Simulates Prod.fst b.recorded b where
  sameId := rfl
  sameKey := rfl
  sameReply _ _ _ := rfl

variable {σ τ : Type} {f : τ → σ} {b : Backend τ} {b' : Backend σ}

theorem Simulates.walk (h : Simulates f b b') (policy : Policy) (text : String)
    (rest : List Candidate) (state : WalkState) (done : List Attempt) (s : τ) :
    Generation.walk b' policy text rest state done (f s) =
      ((Generation.walk b policy text rest state done s).1,
        f (Generation.walk b policy text rest state done s).2) := by
  induction rest generalizing state done s with
  | nil => cases state <;> rfl
  | cons candidate rest ih =>
    cases state with
    | attempting index =>
      obtain ⟨reply, t, hcall⟩ : ∃ reply t, b.call candidate text s = (reply, t) := ⟨_, _, rfl⟩
      have hcall' : b'.call candidate text (f s) = (reply, f t) := by rw [h.sameReply, hcall]
      cases hquery : (judge policy b.id candidate.id reply).2 with
      | some query => simp [Generation.walk, hcall, hcall', h.sameId, hquery]
      | none => simp [Generation.walk, hcall, hcall', h.sameId, hquery, ih]
    | _ => rfl

/-- Backends that answer alike make the same runs. -/
theorem Simulates.run (h : Simulates f b b') (policy : Policy) (request : String) (s : τ) :
    Generation.run b' policy request (f s) =
      ((Generation.run b policy request s).1, f (Generation.run b policy request s).2) := by
  by_cases hkey : b.isConfigured = true
  · simp only [Generation.run, h.sameKey, hkey, if_true]
    exact h.walk ..
  · simp [Generation.run, h.sameKey, hkey]

end Backend

/-! ## One step -/

/-- A call that leads on is followed by a call to the next model, if there is one. -/
theorem WalkState.next_of_leadsOn {outcome : Outcome} {i total : Nat}
    (h : outcome.allowsFallback = true) (hi : i + 1 < total) :
    (WalkState.attempting i).next outcome total = .attempting (i + 1) := by
  have hne : outcome ≠ .accepted := by
    rintro rfl
    exact absurd h (by decide)
  simp [WalkState.next, hne, h, hi]

/-- Any other call without a query is the last one. -/
theorem WalkState.next_of_stop {outcome : Outcome} {i total : Nat} (hne : outcome ≠ .accepted)
    (h : outcome.allowsFallback = false ∨ total ≤ i + 1) :
    (WalkState.attempting i).next outcome total = .exhaustedFailed := by
  rcases h with h | h
  · simp [WalkState.next, hne, h]
  · simp [WalkState.next, hne, h]

/-- A walk goes on to the next place only. -/
theorem WalkState.eq_succ_of_next {outcome : Outcome} {i j total : Nat}
    (h : (WalkState.attempting i).next outcome total = .attempting j) : j = i + 1 := by
  simp only [WalkState.next] at h
  split_ifs at h
  exact (WalkState.attempting.inj h).symm

/-- The models from a place on begin with the one at that place. -/
theorem CandidateList.drop_toList {list : CandidateList} {index : Nat} {candidate : Candidate}
    (h : list.get? index = some candidate) :
    list.toList.drop index = candidate :: list.toList.drop (index + 1) := by
  rw [CandidateList.get?, ← getElem?_toList] at h
  obtain ⟨hlt, rfl⟩ := List.getElem?_eq_some_iff.mp h
  exact List.drop_eq_getElem_cons hlt

/-- From a place without a model on there are none. -/
theorem CandidateList.drop_toList_eq_nil {list : CandidateList} {index : Nat}
    (h : list.get? index = none) : list.toList.drop index = [] := by
  rw [CandidateList.get?, ← getElem?_toList] at h
  exact List.drop_eq_nil_of_le (List.getElem?_eq_none_iff.mp h)

section
variable {σ : Type} (b : Backend σ) (policy : Policy) (text : String)

/-- A walk that is over adds nothing. -/
theorem walk_exhaustedFailed (rest : List Candidate) (done : List Attempt) (s : σ) :
    walk b policy text rest .exhaustedFailed done s =
      (⟨done, .exhaustedFailed, .error (sumUp done)⟩, s) := by
  cases rest <;> rfl

/-- The state alone tells how a walk goes on: at a place it calls the model that the list has there,
and from the state behind that call it goes on in the same way. -/
theorem walk_drop (index : Nat) (done : List Attempt) (s : σ) :
    walk b policy text (policy.candidates.toList.drop index) (.attempting index) done s =
      match policy.candidates.get? index with
      | none => (⟨done, .exhaustedFailed, .error (sumUp done)⟩, s)
      | some candidate =>
        let (reply, s) := b.call candidate text s
        let (attempt, query?) := judge policy b.id candidate.id reply
        let attempts := done ++ [attempt]
        let state := (WalkState.attempting index).next attempt.outcome policy.candidates.size
        match query?, state with
        | some query, state => (⟨attempts, state, .ok ⟨query, candidate.id, attempts.length⟩⟩, s)
        | none, .attempting next =>
          walk b policy text (policy.candidates.toList.drop next) (.attempting next) attempts s
        | none, state => (⟨attempts, state, .error (sumUp attempts)⟩, s) := by
  cases hget : policy.candidates.get? index with
  | none => simp [CandidateList.drop_toList_eq_nil hget, walk]
  | some candidate =>
    obtain ⟨reply, t, hcall⟩ : ∃ reply t, b.call candidate text s = (reply, t) := ⟨_, _, rfl⟩
    obtain ⟨attempt, query?, hjudge⟩ : ∃ attempt query?,
        judge policy b.id candidate.id reply = (attempt, query?) := ⟨_, _, rfl⟩
    simp only [CandidateList.drop_toList hget, walk, hcall, hjudge]
    cases query? with
    | some query => rfl
    | none =>
      cases hnext : (WalkState.attempting index).next attempt.outcome policy.candidates.size with
      | attempting next =>
        obtain rfl := WalkState.eq_succ_of_next hnext
        rfl
      | pending => simp [walk]
      | succeeded => simp [walk]
      | exhaustedFailed => simp [walk]

/-- A call that leads on to a model that is left is one step of the walk. -/
theorem walk_cons_next {c : Call} {s t : σ} {rest : List Candidate} {index : Nat}
    (hcall : b.call c.candidate text s = (c.reply, t)) (hlead : leadsOn policy b.id c = true)
    (hrest : index + 1 < policy.candidates.size) (done : List Attempt) :
    walk b policy text (c.candidate :: rest) (.attempting index) done s =
      walk b policy text rest (.attempting (index + 1)) (done ++ [c.attempt policy b.id]) t := by
  have hq := Call.query?_eq_none_of_allowsFallback policy b.id hlead
  have hstate := WalkState.next_of_leadsOn hlead hrest
  simp only [Call.query?] at hq
  simp only [Call.attempt] at hstate
  simp [walk, hcall, hq, hstate, Call.attempt]

/-- Any other call is the last one of the walk. -/
theorem walk_cons_end {c : Call} {s t : σ} {index : Nat}
    (hcall : b.call c.candidate text s = (c.reply, t))
    (hend : leadsOn policy b.id c = false ∨ policy.candidates.size ≤ index + 1)
    (rest : List Candidate) (done : List Attempt) :
    walk b policy text (c.candidate :: rest) (.attempting index) done s =
      (report policy b.id done [c], t) := by
  have hacc := Call.accepted_iff policy b.id (c := c)
  rcases hq : c.query? policy b.id with _ | q
  · have hne : (c.attempt policy b.id).outcome ≠ .accepted := by simp [hacc, hq]
    have hstate := WalkState.next_of_stop hne hend
    simp only [Call.query?] at hq
    simp only [Call.attempt] at hstate
    simp [walk, hcall, hq, hstate, walk_exhaustedFailed, report, Call.attempt, Call.query?]
  · replace hacc := hacc.mpr ⟨q, hq⟩
    simp only [Call.query?] at hq
    simp only [Call.attempt] at hacc
    simp [walk, hcall, hq, hacc, WalkState.next, report, Call.attempt, Call.query?]

/-- A walk with models left makes conducted calls and ends as they say. The record is a part of
the backend's state, so the induction on the models allows for any record made before. -/
theorem walk_recorded (rest : List Candidate) (index : Nat) (done : List Attempt) (s : σ)
    (log : List Call) (hrest : rest ≠ []) (hsize : index + rest.length = policy.candidates.size) :
    ∃ calls t, Conducted (leadsOn policy b.id) rest calls ∧ (∀ c ∈ calls, c.prompt = text) ∧
      walk b.recorded policy text rest (.attempting index) done (s, log) =
        (report policy b.id done calls, t, log ++ calls) := by
  induction rest generalizing index done s log with
  | nil => exact absurd rfl hrest
  | cons candidate rest ih =>
    obtain ⟨reply, t, hcall⟩ : ∃ reply t, b.call candidate text s = (reply, t) := ⟨_, _, rfl⟩
    let c : Call := ⟨candidate, text, reply⟩
    have hrecord : b.recorded.call c.candidate text (s, log) = (c.reply, t, log ++ [c]) := by
      simp [Backend.recorded, hcall, c]
    rw [List.length_cons] at hsize
    by_cases hlead : leadsOn policy b.id c = true
    · rcases eq_or_ne rest [] with rfl | hne
      · exact ⟨[c], t, .last c, by simp [c],
          walk_cons_end b.recorded policy text hrecord (.inr (by simp at hsize; omega)) [] done⟩
      · have hlen := List.length_pos_iff.mpr hne
        obtain ⟨calls, u, hconducted, hprompt, hwalk⟩ :=
          ih (index + 1) (done ++ [c.attempt policy b.id]) t (log ++ [c]) hne (by omega)
        refine ⟨c :: calls, u, .next c hlead hconducted, by simpa [c] using hprompt, ?_⟩
        calc walk b.recorded policy text (candidate :: rest) (.attempting index) done (s, log)
            = walk b.recorded policy text rest (.attempting (index + 1))
                (done ++ [c.attempt policy b.id]) (t, log ++ [c]) :=
              walk_cons_next b.recorded policy text hrecord hlead (by omega) done
          _ = (report policy b.id done (c :: calls), u, log ++ (c :: calls)) := by
              rw [hwalk, report_cons policy b.id done c hconducted.ne_nil]
              simp
    · have hstop : leadsOn policy b.id c = false := by simpa using hlead
      exact ⟨[c], t, .stop c rest hstop, by simp [c],
        walk_cons_end b.recorded policy text hrecord (.inl hstop) rest done⟩

end

/-! ## Whole runs -/

section
variable {σ : Type} (b : Backend σ) (policy : Policy) (request : String) (s : σ)

@[simp] theorem CandidateList.length_toList (list : CandidateList) :
    list.toList.length = list.size := by
  simp [CandidateList.toList, CandidateList.size]

@[simp] theorem CandidateList.map_id_toList (list : CandidateList) :
    list.toList.map (·.id) = list.ids := by
  simp [CandidateList.toList, Function.comp_def]

/-- Keeping a record changes neither a run nor the world after it. -/
theorem run_recorded :
    run b policy request s =
      ((run b.recorded policy request (s, [])).1, (run b.recorded policy request (s, [])).2.1) :=
  b.simulates_recorded.run policy request (s, [])

/-- Without a key nothing is called. -/
theorem run_of_not_configured (h : b.isConfigured = false) :
    (run b policy request s).1 = ⟨[], .exhaustedFailed, .error .notConfigured⟩ ∧
      callsOf b policy request s = [] := by
  simp [run, callsOf, h]

/-- Without models nothing is called. -/
theorem run_of_no_candidates (h : b.isConfigured = true) (hsize : policy.candidates.ids = []) :
    (run b policy request s).1 = ⟨[], .exhaustedFailed, .error .noCandidates⟩ ∧
      callsOf b policy request s = [] := by
  simp [run, callsOf, h, WalkState.start, CandidateList.size, hsize, walk_exhaustedFailed, sumUp]

/-- The calls of any other run are conducted, and the run is their report. -/
theorem run_of_candidates (h : b.isConfigured = true) (hsize : policy.candidates.ids ≠ []) :
    Conducted (leadsOn policy b.id) policy.candidates.toList (callsOf b policy request s) ∧
      (∀ c ∈ callsOf b policy request s, c.prompt = prompt request) ∧
      (run b policy request s).1 = report policy b.id [] (callsOf b policy request s) := by
  have hpos : 0 < policy.candidates.size := List.length_pos_iff.mpr hsize
  have hne : policy.candidates.toList ≠ [] := by
    rw [← List.length_pos_iff]
    simpa using hpos
  obtain ⟨calls, t, hconducted, hprompt, hwalk⟩ :=
    walk_recorded b policy (prompt request) policy.candidates.toList 0 [] s [] hne (by simp)
  have hrun : run b.recorded policy request (s, []) =
      (report policy b.id [] calls, t, calls) := by
    simpa [run, h, WalkState.start, Nat.pos_iff_ne_zero.mp hpos] using hwalk
  rw [run_recorded, callsOf, hrun]
  exact ⟨hconducted, hprompt, rfl⟩

end
end AskMetrics.Generation
