import AskMetrics.Proofs.Catalog.Cache
import AskMetrics.Proofs.Generation.Fallback
import AskMetrics.Service.Pipeline
import Mathlib.Data.List.Perm.Basic

/-!
# What comes of a question

The steps from a question to a query can end early: with a vague text, with models that give no
query, with metrics that nobody knows. Here everything that a question asks of the world is put on
record, the calls to models as well as the contacts of the catalog cache, so that it can be said
of each end what has and what has not been asked before it.
-/
namespace AskMetrics

/-! ## Partitions -/

/-- Some names split by a catalog that does not know all of them. -/
structure MetricPartition.Splits (partition : MetricPartition) (catalog : MetricCatalog)
    (names : List String) : Prop where
  unknown_ne_nil : partition.unknown ≠ []
  /-- Known names stand in the order in which they were given, and so do unknown ones. -/
  known_sublist : partition.known.Sublist names
  unknown_sublist : partition.unknown.Sublist names
  /-- Each name is on one of the lists, as often as it was given. -/
  perm : (partition.known ++ partition.unknown).Perm names
  catalog_nonempty : catalog.isEmpty = false
  contains_known : ∀ name ∈ partition.known, catalog.contains name = true
  not_contains_unknown : ∀ name ∈ partition.unknown, catalog.contains name = false

namespace MetricCatalog
variable (catalog : MetricCatalog) (names : List String)

/-- No name is unknown when all are in the catalog or nothing is. -/
theorem allKnown_partition_iff :
    (catalog.partition names).allKnown = true ↔
      catalog.isEmpty = true ∨ ∀ name ∈ names, catalog.contains name = true := by
  by_cases hempty : catalog.isEmpty = true
  · simp [partition, MetricPartition.allKnown, hempty]
  · simp [partition, MetricPartition.allKnown, hempty]

/-- Otherwise the partition splits the names. -/
theorem splits_partition (h : (catalog.partition names).allKnown = false) :
    (catalog.partition names).Splits catalog names := by
  have hempty : catalog.isEmpty = false := by
    by_contra hempty
    rw [Bool.not_eq_false] at hempty
    simp [partition, MetricPartition.allKnown, hempty] at h
  have hpartition : catalog.partition names =
      ⟨names.filter catalog.contains, names.filter fun name => !catalog.contains name⟩ := by
    simp [partition, hempty]
  rw [hpartition] at h ⊢
  exact {
    unknown_ne_nil := by simpa [MetricPartition.allKnown] using h
    known_sublist := List.filter_sublist
    unknown_sublist := List.filter_sublist
    perm := List.filter_append_perm catalog.contains names
    catalog_nonempty := hempty
    contains_known := fun name hname => (List.mem_filter.mp hname).2
    not_contains_unknown := fun name hname => by simpa using (List.mem_filter.mp hname).2 }

end MetricCatalog

namespace Service

open Generation Query

/-! ## Questions on record -/

/-- What a question asks of the world. -/
inductive Contact where
  /-- A model is called. -/
  | call (c : Call)
  /-- The clock is read or the names are listed. -/
  | catalog (c : CatalogCache.Contact)

/-- Whether a model is called. -/
def Contact.isCall : Contact → Bool
  | call _ => true
  | catalog _ => false

/-- The calls among contacts in the order of a question. -/
theorem filter_isCall (calls : List Call) (looked : List CatalogCache.Contact) :
    (calls.map Contact.call ++ looked.map Contact.catalog).filter Contact.isCall =
      calls.map Contact.call := by
  simp [List.filter_map, Function.comp_def, Contact.isCall]

/-- The models, with calls kept on record among other contacts. -/
def recordedGeneration {σ : Type} (b : Backend σ) : Backend (σ × List Contact) where
  id := b.id
  isConfigured := b.isConfigured
  call candidate prompt s :=
    let (reply, next) := b.call candidate prompt s.1
    (reply, next, s.2 ++ [.call ⟨candidate, prompt, reply⟩])

/-- The calls are the same as those that the models keep on record themselves. -/
theorem simulates_recordedGeneration {σ : Type} (b : Backend σ) :
    Backend.Simulates (fun s : σ × List Call => (s.1, s.2.map Contact.call)) b.recorded
      (recordedGeneration b) where
  sameId := rfl
  sameKey := rfl
  sameReply candidate prompt s := by simp [Backend.recorded, recordedGeneration]

theorem run_recordedGeneration {σ : Type} (b : Backend σ) (policy : Policy) (request : String)
    (s : σ) :
    run (recordedGeneration b) policy request (s, []) =
      ((run b policy request s).1, (run b policy request s).2,
        (callsOf b policy request s).map .call) := by
  have h := (simulates_recordedGeneration b).run policy request (s, [])
  rw [run_recorded b]
  exact h

namespace Pipeline
variable {σ : Type}

/-- The pipeline that keeps on record what it asks of the world. -/
def recorded (p : Pipeline σ) : Pipeline (σ × List Contact) where
  generation := recordedGeneration p.generation
  metrics := CatalogCache.recordedBackend .catalog p.metrics
  clock := CatalogCache.recordedClock .catalog p.clock
  policy := p.policy
  catalogLifetime := p.catalogLifetime

/-- What is asked of the world for a question. -/
def contacts (p : Pipeline σ) (question : Question) (cache : CatalogCache) (s : σ) :
    List Contact :=
  (p.recorded.ask question cache (s, [])).2.2.2

section
variable (p : Pipeline σ) (question : Question) (cache : CatalogCache) (s : σ)

/-- The text that is put to the models. -/
def cleaned (question : Question) : String := Request.sanitize question.text

/-- The window of a question: the one that its text names, else the one given beside it. -/
def window (question : Question) : Option Nat :=
  Request.reconcile (Request.detectWindow (cleaned question)) question.windowMinutes

/-- The run that a question starts, and the world after it. -/
def generated : Run × σ := run p.generation p.policy (cleaned question) s

/-- The calls of that run. -/
def calls : List Call := callsOf p.generation p.policy (cleaned question) s

/-- The look into the catalog after the run. -/
def lookedUp : CatalogCache.Lookup :=
  cache.lookup p.clock p.metrics (p.generated question s).2

/-! ## The courses of a question -/

/-- The courses that a question can take: what comes of it, what is asked of the world, and the cache
afterwards. -/
inductive Course : Except AskFailure Finding → List Contact → CatalogCache → Prop
  /-- The text is too vague. -/
  | vague (h : Request.isLowIntent (cleaned question) = true) : Course (.error .lowIntent) [] cache
  /-- The models give no query. -/
  | failed (h : Request.isLowIntent (cleaned question) = false) {f : GenerationFailure}
    (hrun : (p.generated question s).1.result = .error f) :
    Course (.error (.generation f)) ((p.calls question s).map .call) cache
  /-- The metrics of a query are looked up. -/
  | lookedUp (h : Request.isLowIntent (cleaned question) = false) {g : Generated}
    (hrun : (p.generated question s).1.result = .ok g) :
    Course
      (lookUp (cleaned question) g (window question) (p.lookedUp question cache s).reading.catalog)
      ((p.calls question s).map .call ++ (p.lookedUp question cache s).contacts.map .catalog)
      (p.lookedUp question cache s).after

namespace Course
variable {p question cache s} {result : Except AskFailure Finding} {log : List Contact}
  {after : CatalogCache}

theorem of_vague (h : p.Course question cache s result log after)
    (hvague : Request.isLowIntent (cleaned question) = true) :
    result = .error .lowIntent ∧ log = [] ∧ after = cache := by
  cases h with
  | vague _ => exact ⟨rfl, rfl, rfl⟩
  | failed hclear _ => simp [hvague] at hclear
  | lookedUp hclear _ => simp [hvague] at hclear

theorem of_error (h : p.Course question cache s result log after)
    (hclear : Request.isLowIntent (cleaned question) = false) {f : GenerationFailure}
    (hrun : (p.generated question s).1.result = .error f) :
    result = .error (.generation f) ∧ log = (p.calls question s).map .call ∧ after = cache := by
  cases h with
  | vague hvague => simp [hclear] at hvague
  | failed _ hf =>
    obtain rfl : _ = f := Except.error.inj (hf.symm.trans hrun)
    exact ⟨rfl, rfl, rfl⟩
  | lookedUp _ hg => simp [hrun] at hg

theorem of_ok (h : p.Course question cache s result log after)
    (hclear : Request.isLowIntent (cleaned question) = false) {g : Generated}
    (hrun : (p.generated question s).1.result = .ok g) :
    result = lookUp (cleaned question) g (window question)
        (cache.current p.clock p.metrics (p.generated question s).2).1.catalog ∧
      (∃ looked, (CatalogCache.answers looked).length ≤ 1 ∧
        log = (p.calls question s).map .call ++ looked.map .catalog) ∧
      after = (cache.current p.clock p.metrics (p.generated question s).2).2.1 := by
  cases h with
  | vague hvague => simp [hclear] at hvague
  | failed _ hf => simp [hrun] at hf
  | lookedUp _ hg =>
    obtain rfl : _ = g := Except.ok.inj (hg.symm.trans hrun)
    refine ⟨?_, ⟨_, (CatalogCache.course_lookup ..).length_answers_le, rfl⟩, ?_⟩
    · simp only [Pipeline.lookedUp, CatalogCache.reading_lookup]
    · simp only [Pipeline.lookedUp, CatalogCache.after_lookup]

end Course

/-- What comes of a question, without what is counted on the way. -/
def outcome : Except AskFailure Finding × CatalogCache × σ :=
  ((p.ask question cache s).1.result, (p.ask question cache s).2)

theorem outcome_of_vague (h : Request.isLowIntent (cleaned question) = true) :
    p.outcome question cache s = (.error .lowIntent, cache, s) := by
  rw [cleaned] at h
  simp [outcome, ask, steps, h]

theorem outcome_of_error (h : Request.isLowIntent (cleaned question) = false)
    {f : GenerationFailure} (hrun : (p.generated question s).1.result = .error f) :
    p.outcome question cache s = (.error (.generation f), cache, (p.generated question s).2) := by
  rw [generated, cleaned] at *
  simp [outcome, ask, steps, h, hrun]

theorem outcome_of_ok (h : Request.isLowIntent (cleaned question) = false) {g : Generated}
    (hrun : (p.generated question s).1.result = .ok g) :
    p.outcome question cache s =
      (lookUp (cleaned question) g (window question)
          (cache.current p.clock p.metrics (p.generated question s).2).1.catalog,
        (cache.current p.clock p.metrics (p.generated question s).2).2) := by
  rw [generated, cleaned] at *
  simp [outcome, ask, steps, window, cleaned, h, hrun]

theorem generated_recorded :
    p.recorded.generated question (s, []) =
      ((p.generated question s).1, (p.generated question s).2, (p.calls question s).map .call) :=
  run_recordedGeneration p.generation p.policy (cleaned question) s

/-- Each question takes one of the courses, and the record of it says which. -/
theorem exists_course :
    ∃ result log after t, p.Course question cache s result log after ∧
      p.outcome question cache s = (result, after, t) ∧
      p.recorded.outcome question cache (s, []) = (result, after, t, log) := by
  have hrecorded := p.generated_recorded question s
  by_cases hvague : Request.isLowIntent (cleaned question) = true
  · exact ⟨_, _, _, _, .vague hvague, p.outcome_of_vague question cache s hvague,
      p.recorded.outcome_of_vague question cache _ hvague⟩
  rw [Bool.not_eq_true] at hvague
  cases hrun : (p.generated question s).1.result with
  | error f =>
    refine ⟨_, _, _, _, .failed hvague hrun, p.outcome_of_error question cache s hvague hrun, ?_⟩
    rw [p.recorded.outcome_of_error question cache _ hvague (by rw [hrecorded, hrun]), hrecorded]
  | ok g =>
    have hcurrent : cache.current p.recorded.clock p.recorded.metrics
        ((p.generated question s).2, (p.calls question s).map .call) = _ :=
      cache.current_recorded p.clock p.metrics (p.generated question s).2 Contact.catalog _
    refine ⟨_, _, _, (cache.current p.clock p.metrics (p.generated question s).2).2.2,
      .lookedUp hvague hrun, ?_, ?_⟩
    · simp only [p.outcome_of_ok question cache s hvague hrun, lookedUp,
        CatalogCache.reading_lookup, CatalogCache.after_lookup]
    · rw [p.recorded.outcome_of_ok question cache _ hvague (by rw [hrecorded, hrun]), hrecorded,
        hcurrent]
      simp only [lookedUp, CatalogCache.reading_lookup, CatalogCache.after_lookup]

/-- Keeping a record changes nothing of what comes of a question. -/
theorem outcome_recorded :
    p.recorded.outcome question cache (s, []) =
      ((p.outcome question cache s).1, (p.outcome question cache s).2.1,
        (p.outcome question cache s).2.2, p.contacts question cache s) := by
  obtain ⟨result, log, after, t, -, houtcome, hrecorded⟩ := p.exists_course question cache s
  have hlog : p.contacts question cache s = log := by
    simp only [outcome, Prod.ext_iff] at hrecorded
    exact hrecorded.2.2.2
  rw [hrecorded, houtcome, hlog]

theorem course_ask :
    p.Course question cache s (p.ask question cache s).1.result (p.contacts question cache s)
      (p.ask question cache s).2.1 := by
  obtain ⟨result, log, after, t, hcourse, houtcome, hrecorded⟩ := p.exists_course question cache s
  simp only [outcome_recorded, houtcome, Prod.mk.injEq, true_and] at hrecorded
  simp only [outcome, Prod.ext_iff] at houtcome
  rwa [houtcome.1, houtcome.2.1, hrecorded]

/-! ## What each end leaves undone -/

/-- What comes of a question, end by end. -/
structure Accounted : Prop where
  /-- There is a finding exactly when the text is not vague, the run gives a query, and the catalog
  that is looked into is empty or has all metrics of the query with the window in it. -/
  ok_iff : ∀ f, (p.ask question cache s).1.result = .ok f ↔
    Request.isLowIntent (cleaned question) = false ∧
      ∃ g, (p.generated question s).1.result = .ok g ∧
        let query := g.query.withWindow (window question)
        let catalog := (cache.current p.clock p.metrics (p.generated question s).2).1.catalog
        (catalog.isEmpty = true ∨ ∀ name ∈ query.metrics, catalog.contains name = true) ∧
          f = ⟨cleaned question, query.text, window question, g.candidate,
            (p.calls question s).length⟩
  /-- A run that gives a query ends with the one call that is accepted, to the model it names. -/
  accepts : ∀ g, (p.generated question s).1.result = .ok g →
    ∃ earlier c, Accepts p.generation p.policy (cleaned question) s g earlier c
  /-- For a vague text nothing is asked. -/
  vague : Request.isLowIntent (cleaned question) = true →
    (p.ask question cache s).1.result = .error .lowIntent ∧ p.contacts question cache s = [] ∧
      (p.ask question cache s).2.1 = cache
  /-- After a failed run the catalog is not looked into. -/
  failed : Request.isLowIntent (cleaned question) = false →
    ∀ f, (p.generated question s).1.result = .error f →
      (p.ask question cache s).1.result = .error (.generation f) ∧
        p.contacts question cache s = (p.calls question s).map .call ∧
        (p.ask question cache s).2.1 = cache
  /-- After a run that gives a query nobody is called, and names are listed once at most. -/
  given : Request.isLowIntent (cleaned question) = false →
    ∀ g, (p.generated question s).1.result = .ok g →
      (∃ looked, (CatalogCache.answers looked).length ≤ 1 ∧
        p.contacts question cache s = (p.calls question s).map .call ++ looked.map .catalog) ∧
        (p.ask question cache s).2.1 =
          (cache.current p.clock p.metrics (p.generated question s).2).2.1
  /-- No other text is turned away as vague. -/
  lowIntent : (p.ask question cache s).1.result = .error .lowIntent →
    Request.isLowIntent (cleaned question) = true
  /-- No other run counts as failed. -/
  generation : ∀ f, (p.ask question cache s).1.result = .error (.generation f) →
    Request.isLowIntent (cleaned question) = false ∧
      (p.generated question s).1.result = .error f
  /-- A finding tells how many of the contacts are calls. -/
  attempts : ∀ f, (p.ask question cache s).1.result = .ok f →
    f.attempts = ((p.contacts question cache s).filter Contact.isCall).length
  /-- Unknown metrics are those of an accepted query, and nobody is called after it. -/
  unknown : ∀ text partition,
    (p.ask question cache s).1.result = .error (.unknownMetrics text partition) →
      ∃ g earlier c, Accepts p.generation p.policy (cleaned question) s g earlier c ∧
        let query := g.query.withWindow (window question)
        text = query.text ∧
          partition.Splits
            (cache.current p.clock p.metrics (p.generated question s).2).1.catalog query.metrics ∧
          ∃ looked, p.contacts question cache s = (earlier ++ [c]).map .call ++ looked.map .catalog ∧
            (CatalogCache.answers looked).length ≤ 1

theorem lookUp_eq_ok_iff {text : String} {g : Generated} {w : Option Nat} {catalog : MetricCatalog}
    {f : Finding} :
    lookUp text g w catalog = .ok f ↔
      (catalog.isEmpty = true ∨
        ∀ name ∈ (g.query.withWindow w).metrics, catalog.contains name = true) ∧
      f = ⟨text, (g.query.withWindow w).text, w, g.candidate, g.attempts⟩ := by
  rw [← MetricCatalog.allKnown_partition_iff, lookUp]
  split_ifs with hknown
  · simp [hknown, eq_comm]
  · simp [hknown]

theorem lookUp_eq_error {text : String} {g : Generated} {w : Option Nat} {catalog : MetricCatalog}
    {failure : AskFailure} (h : lookUp text g w catalog = .error failure) :
    failure = .unknownMetrics (g.query.withWindow w).text
        (catalog.partition (g.query.withWindow w).metrics) ∧
      (catalog.partition (g.query.withWindow w).metrics).Splits catalog
        (g.query.withWindow w).metrics := by
  rw [lookUp] at h
  split_ifs at h with hknown
  exact ⟨(Except.error.inj h).symm, catalog.splits_partition _ (by simpa using hknown)⟩

/-- **What comes of a question**, for all models, metrics backends, clocks and caches. -/
theorem ask_accounted : p.Accounted question cache s := by
  have hcourse := p.course_ask question cache s
  have haccepts : ∀ g, (p.generated question s).1.result = .ok g →
      ∃ earlier c, Accepts p.generation p.policy (cleaned question) s g earlier c :=
    fun g hg => exists_accepts p.generation p.policy (cleaned question) s hg
  by_cases hvague : Request.isLowIntent (cleaned question) = true
  · obtain ⟨hresult, hcontacts, hafter⟩ := hcourse.of_vague hvague
    exact {
      ok_iff := by simp [hresult, hvague]
      accepts := haccepts
      vague := fun _ => ⟨hresult, hcontacts, hafter⟩
      failed := by simp [hvague]
      given := by simp [hvague]
      lowIntent := fun _ => hvague
      generation := by simp [hresult]
      attempts := by simp [hresult]
      unknown := by simp [hresult] }
  rw [Bool.not_eq_true] at hvague
  cases hrun : (p.generated question s).1.result with
  | error f =>
    obtain ⟨hresult, hcontacts, hafter⟩ := hcourse.of_error hvague hrun
    exact {
      ok_iff := by simp [hresult, hrun]
      accepts := haccepts
      vague := by simp [hvague]
      failed := by simp [hrun, hresult, hcontacts, hafter]
      given := by simp [hrun]
      lowIntent := by simp [hresult]
      generation := by simp [hresult, hvague, hrun]
      attempts := by simp [hresult]
      unknown := by simp [hresult] }
  | ok g =>
    obtain ⟨hresult, ⟨looked, hlistings, hcontacts⟩, hafter⟩ := hcourse.of_ok hvague hrun
    obtain ⟨earlier, c, hg⟩ := haccepts g hrun
    refine {
      ok_iff := fun f => ?ok
      accepts := haccepts
      vague := by simp [hvague]
      failed := by simp [hrun]
      given := fun _ _ _ => ⟨⟨looked, hlistings, hcontacts⟩, hafter⟩
      lowIntent := fun h => ?lowIntent
      generation := fun f h => ?generation
      attempts := fun f h => ?attempts
      unknown := fun text partition h => ?unknown }
    case ok =>
      rw [hresult, lookUp_eq_ok_iff, hg.attempts]
      simp [hvague, hrun, calls]
    case lowIntent =>
      have hother := (lookUp_eq_error (hresult.symm.trans h)).1
      simp at hother
    case generation =>
      have hother := (lookUp_eq_error (hresult.symm.trans h)).1
      simp at hother
    case attempts =>
      obtain ⟨-, rfl⟩ := lookUp_eq_ok_iff.mp (hresult.symm.trans h)
      rw [hcontacts, filter_isCall, hg.attempts, List.length_map]
      rfl
    case unknown =>
      obtain ⟨h, hsplits⟩ := lookUp_eq_error (hresult.symm.trans h)
      obtain ⟨rfl, rfl⟩ := AskFailure.unknownMetrics.inj h
      refine ⟨g, earlier, c, hg, rfl, hsplits, looked, ?_, hlistings⟩
      rw [hcontacts, calls, hg.calls]

end

end Pipeline

end Service

end AskMetrics
