import AskMetrics.Proofs.Service.Pipeline

/-!
# What questions count

Counters are incremented in three places: where the attempts of a run are known, where the names
have been listed, and where a question is answered. A question can end before it comes to the
first or the second of them. Here the increments of a question are compared with what it asked of
the world, which is on record apart from them, and the counters after any number of questions with
the records of all.
-/
namespace AskMetrics

open Prometheus

/-- What comes of a listing with an answer. -/
def RefreshStatus.ofAnswer : Except MetricsFailure (List String) → RefreshStatus
  | .ok _ => success
  | .error _ => failure

/-- A caller is told of the listings that are on record. -/
theorem CatalogCache.Course.refresh_toList {cache after : CatalogCache} {contacts : List Contact}
    {reading : CatalogReading} (h : Course cache contacts reading after) :
    reading.refresh.toList = (answers contacts).map .ofAnswer := by
  cases h <;> rfl

namespace Service

open Generation

namespace Counters

/-- How often the counters of a family were incremented. -/
def total (counters : Counters) (family : String) : Nat :=
  counters.countP (·.family = family)

variable (first second : Counters)

@[simp] theorem value_append (c : Counter) :
    value (first ++ second) c = value first c + value second c :=
  List.count_append

@[simp] theorem total_append (family : String) :
    total (first ++ second) family = total first family + total second family :=
  List.countP_append

section
variable {α : Type} (f : α → Counter) (xs : List α)

@[simp] theorem value_map (c : Counter) : value (xs.map f) c = xs.countP (f · = c) := by
  rw [value, List.count_eq_countP, List.countP_map]
  rfl

@[simp] theorem total_map (family : String) :
    total (xs.map f) family = xs.countP fun x => (f x).family = family := by
  rw [total, List.countP_map]
  rfl

end

@[simp] theorem value_singleton (c d : Counter) : value [c] d = if c = d then 1 else 0 := by
  simp [value, List.count_singleton]

@[simp] theorem total_singleton (c : Counter) (family : String) :
    total [c] family = if c.family = family then 1 else 0 := by
  simp [total, List.countP_singleton]

end Counters

/-- The calls among what was asked of the world. -/
def callsIn (contacts : List Contact) : List Call :=
  contacts.filterMap fun
    | .call c => some c
    | .catalog _ => none

/-- The answers to the listings among what was asked of the world. -/
def listingsIn (contacts : List Contact) : List (Except MetricsFailure (List String)) :=
  CatalogCache.answers <| contacts.filterMap fun
    | .call _ => none
    | .catalog c => some c

section
variable (calls : List Call) (looked : List CatalogCache.Contact)

@[simp] theorem listingsIn_append :
    listingsIn (calls.map .call ++ looked.map .catalog) = CatalogCache.answers looked := by
  simp [listingsIn, List.filterMap_map]

end

namespace Pipeline
variable {σ : Type}

/-! ## One question -/

/-- The attempts of the run that a question starts. A vague text starts none. -/
def attempts (p : Pipeline σ) (question : Question) (s : σ) : List Attempt :=
  if Request.isLowIntent (cleaned question) then [] else (p.generated question s).1.attempts

/-- An attempt in the counters. -/
def countAttempt (a : Attempt) : Counter := .attempt a.candidate a.outcome.label

/-- An answer to a listing in the counters. -/
def countListing (answer : Except MetricsFailure (List String)) : Counter :=
  .refresh (RefreshStatus.ofAnswer answer).label

section
variable (p : Pipeline σ) (question : Question) (cache : CatalogCache) (s : σ)

/-- What is asked of the world for a text that is not vague: the models first, and the catalog only
if they give a query. -/
def lookedAfter : List CatalogCache.Contact :=
  match (p.generated question s).1.result with
  | .error _ => []
  | .ok _ => (p.lookedUp question cache s).contacts

theorem contacts_of_vague (h : Request.isLowIntent (cleaned question) = true) :
    p.contacts question cache s = [] := by
  have hcourse := p.course_ask question cache s
  generalize p.contacts question cache s = contacts at hcourse ⊢
  generalize (p.ask question cache s).1.result = result at hcourse
  generalize (p.ask question cache s).2.1 = after at hcourse
  cases hcourse with
  | vague => rfl
  | failed hclear => simp [h] at hclear
  | lookedUp hclear => simp [h] at hclear

theorem contacts_of_clear (h : Request.isLowIntent (cleaned question) = false) :
    p.contacts question cache s =
      (p.calls question s).map .call ++ (p.lookedAfter question cache s).map .catalog := by
  have hcourse := p.course_ask question cache s
  generalize p.contacts question cache s = contacts at hcourse ⊢
  generalize (p.ask question cache s).1.result = result at hcourse
  generalize (p.ask question cache s).2.1 = after at hcourse
  cases hcourse with
  | vague hvague => simp [h] at hvague
  | failed _ hrun => simp [lookedAfter, hrun]
  | lookedUp _ hrun => simp [lookedAfter, hrun]

/-- **The increments of one question**: its attempts, its listings and its result. -/
theorem counted_ask :
    (p.ask question cache s).1.counted =
      (p.attempts question s).map countAttempt ++
        (listingsIn (p.contacts question cache s)).map countListing ++
          [.question (outcomeLabel (p.ask question cache s).1.result)] := by
  by_cases h : Request.isLowIntent (cleaned question) = true
  · rw [p.contacts_of_vague question cache s h]
    rw [cleaned] at h
    simp [ask, steps, attempts, cleaned, h, listingsIn, CatalogCache.answers]
  · rw [Bool.not_eq_true] at h
    rw [p.contacts_of_clear question cache s h, listingsIn_append]
    cases hrun : (p.generated question s).1.result with
    | error f =>
      rw [generated, cleaned] at hrun
      rw [cleaned] at h
      simp [ask, steps, attempts, cleaned, generated, lookedAfter, h, hrun, countAttempts,
        countAttempt, CatalogCache.answers]
    | ok g =>
      have hlisted : (CatalogCache.answers (p.lookedAfter question cache s)).map countListing =
          countRefresh (cache.current p.clock p.metrics (p.generated question s).2).1 := by
        have hrefresh := (CatalogCache.course_lookup cache p.clock p.metrics
          (p.generated question s).2).refresh_toList
        rw [CatalogCache.reading_lookup] at hrefresh
        simp only [lookedAfter, hrun, lookedUp, countRefresh, Option.toList_map, hrefresh,
          List.map_map]
        rfl
      rw [hlisted, generated, cleaned] at *
      simp [ask, steps, attempts, cleaned, generated, h, hrun, countAttempts, countAttempt]

end

/-! ## Questions one after the other -/

/-- A question on record. -/
structure Entry where
  result : Except AskFailure Finding
  /-- The increments. -/
  counted : Counters
  /-- The attempts of the run. -/
  attempts : List Attempt
  contacts : List Contact

namespace Entry

/-- The calls that were made for a question. -/
def calls (e : Entry) : List Call := callsIn e.contacts

/-- The answers to the listings that were made for a question. -/
def listings (e : Entry) : List (Except MetricsFailure (List String)) := listingsIn e.contacts

/-- An entry with the increments of its attempts, its listings and its result. -/
structure Sound (e : Entry) : Prop where
  length_attempts : e.attempts.length = e.calls.length
  counted : e.counted = e.attempts.map countAttempt ++ e.listings.map countListing ++
    [.question (outcomeLabel e.result)]

end Entry

/-- The record of a question. -/
def entry (p : Pipeline σ) (question : Question) (cache : CatalogCache) (s : σ) : Entry where
  result := (p.ask question cache s).1.result
  counted := (p.ask question cache s).1.counted
  attempts := p.attempts question s
  contacts := p.contacts question cache s

/-- The records of questions one after the other, each with the state of the world that it finds.
Between two questions the world may change in any way. -/
def entries (p : Pipeline σ) : CatalogCache → List (Question × σ) → List Entry
  | _, [] => []
  | cache, (question, s) :: later =>
    p.entry question cache s :: p.entries (p.ask question cache s).2.1 later

section
variable (p : Pipeline σ) (cache : CatalogCache) (questions : List (Question × σ))

end

/-- Counters that have grown by what is on record of some questions, and by nothing else. -/
structure Conserved (before after : Counters) (entries : List Entry) : Prop where
  /-- Each question is counted once, under the label of its result. -/
  questions : ∀ label, after.value (.question label) =
    before.value (.question label) + entries.countP (outcomeLabel ·.result = label)
  questions_total : after.total "sextant_translations_total" =
    before.total "sextant_translations_total" + entries.length
  /-- Each attempt of a run is counted once, under the model and the label of its outcome. -/
  attempts : ∀ candidate label, after.value (.attempt candidate label) =
    before.value (.attempt candidate label) +
      (entries.flatMap (·.attempts)).countP fun a =>
        a.candidate = candidate ∧ a.outcome.label = label
  /-- There are as many of them as calls were made. -/
  attempts_total : after.total "sextant_generation_attempts_total" =
    before.total "sextant_generation_attempts_total" + (entries.flatMap (·.calls)).length
  /-- Each listing is counted once, under what came of it. -/
  refreshes : ∀ status : RefreshStatus, after.value (.refresh status.label) =
    before.value (.refresh status.label) +
      (entries.flatMap (·.listings)).countP (.ofAnswer · = status)
  refreshes_total : after.total "sextant_catalog_refreshes_total" =
    before.total "sextant_catalog_refreshes_total" + (entries.flatMap (·.listings)).length
  /-- Nothing of requests is counted. -/
  requests : ∀ method path status,
    after.value (.request method path status) = before.value (.request method path status) ∧
      after.value (.duration method path) = before.value (.duration method path)

namespace Entry.Sound
variable {e : Entry}

end Entry.Sound

/-- What holds of two stretches of a history holds of both together. -/
theorem Conserved.trans {first second third : Counters} {past later : List Entry}
    (h : Conserved first second past) (h' : Conserved second third later) :
    Conserved first third (past ++ later) where
  questions label := by rw [h'.questions, h.questions, List.countP_append, Nat.add_assoc]
  questions_total := by
    rw [h'.questions_total, h.questions_total, List.length_append, Nat.add_assoc]
  attempts candidate label := by
    rw [h'.attempts, h.attempts, List.flatMap_append, List.countP_append, Nat.add_assoc]
  attempts_total := by
    rw [h'.attempts_total, h.attempts_total, List.flatMap_append, List.length_append, Nat.add_assoc]
  refreshes status := by
    rw [h'.refreshes, h.refreshes, List.flatMap_append, List.countP_append, Nat.add_assoc]
  refreshes_total := by
    rw [h'.refreshes_total, h.refreshes_total, List.flatMap_append, List.length_append,
      Nat.add_assoc]
  requests method path status := by
    simp only [(h'.requests method path status).1, (h.requests method path status).1,
      (h'.requests method path status).2, (h.requests method path status).2, and_self]

end Pipeline
end Service
end AskMetrics
