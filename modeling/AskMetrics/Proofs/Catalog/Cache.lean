import AskMetrics.Catalog.Cache
import AskMetrics.Scripted.Scenario
import Mathlib.Data.List.Basic

/-!
# What the catalog cache keeps

Whoever asks the cache for the catalog reads the clock, once or twice, and lists the names if the
kept snapshot is stale each time. Here the readings and the listings are put on record, so that a
history of such lookups can be compared with what the cache keeps and gives. Between two lookups
the world may change in any way, so the clock may jump and the backend may do whatever it likes.
-/
namespace AskMetrics

open Prometheus

namespace CatalogCache

/-! ## Lookups on record -/

/-- What the cache asks of the world. -/
inductive Contact where
  /-- The clock is read. -/
  | reading (now : Int)
  /-- The names are listed. -/
  | listing (answer : Except MetricsFailure (List String))

/-- The clock that keeps its readings on a record of some kind. -/
def recordedClock {σ κ : Type} (keep : Contact → κ) (clock : Clock σ) : Clock (σ × List κ) where
  wall s :=
    let (now, next) := clock.wall s.1
    (now, next, s.2 ++ [keep (.reading now)])
  uptime s :=
    let (elapsed, next) := clock.uptime s.1
    (elapsed, next, s.2)

/-- The backend that keeps its listings on a record of some kind. -/
def recordedBackend {σ κ : Type} (keep : Contact → κ) (backend : MetricsBackend σ) :
    MetricsBackend (σ × List κ) where
  id := backend.id
  listNames s :=
    let (answer, next) := backend.listNames s.1
    (answer, next, s.2 ++ [keep (.listing answer)])
  queryRange query s :=
    let (result, next) := backend.queryRange query s.1
    (result, next, s.2)
  queryInstant query s :=
    let (result, next) := backend.queryInstant query s.1
    (result, next, s.2)
  isHealthy s :=
    let (healthy, next) := backend.isHealthy s.1
    (healthy, next, s.2)

/-- A lookup on record. -/
structure Lookup where
  /-- The cache before the lookup. -/
  before : CatalogCache
  /-- The readings and listings, in order. -/
  contacts : List Contact
  /-- What the caller gets. -/
  reading : CatalogReading
  /-- The cache after the lookup. -/
  after : CatalogCache

/-- The record of a lookup in a world. -/
def lookup {σ : Type} (cache : CatalogCache) (clock : Clock σ) (backend : MetricsBackend σ)
    (s : σ) : Lookup :=
  let (reading, after, _, contacts) :=
    cache.current (recordedClock id clock) (recordedBackend id backend) (s, [])
  ⟨cache, contacts, reading, after⟩

/-- The records of lookups one after the other. `worlds` are the states of the world that they find
when they begin. -/
def lookups {σ : Type} (clock : Clock σ) (backend : MetricsBackend σ) :
    CatalogCache → List σ → List Lookup
  | _, [] => []
  | cache, s :: worlds =>
    let l := cache.lookup clock backend s
    l :: lookups clock backend l.after worlds

/-! ## The courses of a lookup -/

/-- The courses that a lookup in a cache can take: what is asked of the world, what the caller gets,
and the cache afterwards. -/
inductive Course (cache : CatalogCache) : List Contact → CatalogReading → CatalogCache → Prop
  /-- The snapshot is fresh. -/
  | fresh (now : Int) (h : cache.snapshot.isFresh now = true) :
    Course cache [.reading now] ⟨cache.snapshot, none⟩ cache
  /-- The snapshot is fresh at the second look. -/
  | freshLater (now later : Int) (h : cache.snapshot.isFresh now = false)
    (hlater : cache.snapshot.isFresh later = true) :
    Course cache [.reading now, .reading later] ⟨cache.snapshot, none⟩ cache
  /-- The names are listed and kept. -/
  | listed (now later : Int) (h : cache.snapshot.isFresh now = false)
    (hlater : cache.snapshot.isFresh later = false) (names : List String) (taken : Int) :
    Course cache [.reading now, .reading later, .listing (.ok names), .reading taken]
      ⟨.ofNames names taken cache.lifetime, some .success⟩
      { cache with snapshot := .ofNames names taken cache.lifetime }
  /-- The listing fails. -/
  | failed (now later : Int) (h : cache.snapshot.isFresh now = false)
    (hlater : cache.snapshot.isFresh later = false) (failure : MetricsFailure) :
    Course cache [.reading now, .reading later, .listing (.error failure)]
      ⟨.empty cache.lifetime, some .failure⟩ cache

section
variable {σ : Type} (cache : CatalogCache) (clock : Clock σ) (backend : MetricsBackend σ) (s : σ)

/-- A lookup takes one of the courses, and a record of any kind adds it to what was on record
before. -/
theorem exists_course :
    ∃ contacts reading after t, Course cache contacts reading after ∧
      cache.current clock backend s = (reading, after, t) ∧
      ∀ {κ : Type} (keep : Contact → κ) (log : List κ),
        cache.current (recordedClock keep clock) (recordedBackend keep backend) (s, log) =
          (reading, after, t, log ++ contacts.map keep) := by
  obtain ⟨now, s₁, hnow⟩ : ∃ now s₁, clock.wall s = (now, s₁) := ⟨_, _, rfl⟩
  by_cases hfresh : cache.snapshot.isFresh now = true
  · exact ⟨_, _, _, s₁, .fresh now hfresh, by simp [current, fresh?, hnow, hfresh],
      fun keep log => by simp [current, fresh?, recordedClock, hnow, hfresh]⟩
  rw [Bool.not_eq_true] at hfresh
  obtain ⟨later, s₂, hlater⟩ : ∃ later s₂, clock.wall s₁ = (later, s₂) := ⟨_, _, rfl⟩
  by_cases hfresh' : cache.snapshot.isFresh later = true
  · exact ⟨_, _, _, s₂, .freshLater now later hfresh hfresh',
      by simp [current, fresh?, hnow, hfresh, hlater, hfresh'],
      fun keep log => by simp [current, fresh?, recordedClock, hnow, hfresh, hlater, hfresh']⟩
  rw [Bool.not_eq_true] at hfresh'
  rcases hanswer : backend.listNames s₂ with ⟨failure | names, s₃⟩
  · exact ⟨_, _, _, s₃, .failed now later hfresh hfresh' failure,
      by simp [current, fresh?, refresh, hnow, hfresh, hlater, hfresh', hanswer],
      fun keep log => by simp [current, fresh?, refresh, recordedClock, recordedBackend, hnow,
        hfresh, hlater, hfresh', hanswer]⟩
  · obtain ⟨taken, s₄, htaken⟩ : ∃ taken s₄, clock.wall s₃ = (taken, s₄) := ⟨_, _, rfl⟩
    exact ⟨_, _, _, s₄, .listed now later hfresh hfresh' names taken,
      by simp [current, fresh?, refresh, hnow, hfresh, hlater, hfresh', hanswer, htaken],
      fun keep log => by simp [current, fresh?, refresh, recordedClock, recordedBackend, hnow,
        hfresh, hlater, hfresh', hanswer, htaken]⟩

/-- Each lookup takes one of the four courses. -/
theorem course_lookup :
    Course cache (cache.lookup clock backend s).contacts (cache.lookup clock backend s).reading
      (cache.lookup clock backend s).after := by
  obtain ⟨contacts, reading, after, t, hcourse, -, hrecorded⟩ := exists_course cache clock backend s
  simpa [lookup, hrecorded] using hcourse

/-- A lookup gives and does the same on record, whatever the kind of the record. -/
theorem current_recorded {κ : Type} (keep : Contact → κ) (log : List κ) :
    cache.current (recordedClock keep clock) (recordedBackend keep backend) (s, log) =
      ((cache.current clock backend s).1, (cache.current clock backend s).2.1,
        (cache.current clock backend s).2.2,
        log ++ (cache.lookup clock backend s).contacts.map keep) := by
  obtain ⟨contacts, reading, after, t, -, hcurrent, hrecorded⟩ := exists_course cache clock backend s
  simp [lookup, hrecorded, hcurrent]

@[simp] theorem reading_lookup :
    (cache.lookup clock backend s).reading = (cache.current clock backend s).1 := by
  rw [lookup, current_recorded]

@[simp] theorem after_lookup :
    (cache.lookup clock backend s).after = (cache.current clock backend s).2.1 := by
  rw [lookup, current_recorded]

end

/-! ## What a record says -/

/-- The answers to the listings. -/
def answers (contacts : List Contact) : List (Except MetricsFailure (List String)) :=
  contacts.filterMap fun
    | .reading _ => none
    | .listing answer => some answer

/-- A lookup lists the names once at most. -/
theorem Course.length_answers_le {cache after : CatalogCache} {contacts : List Contact}
    {reading : CatalogReading} (h : Course cache contacts reading after) :
    (answers contacts).length ≤ 1 := by
  cases h <;> simp [answers]

/-- The names of a successful listing at the end of a record and the time at which they came. -/
def fetch? (contacts : List Contact) : Option (List String × Int) :=
  match contacts.reverse with
  | .reading taken :: .listing (.ok names) :: _ => some (names, taken)
  | _ => none

/-- The last successful listing in a row of lookups as a snapshot, or the empty one if there is
none. -/
def stored (lifetime : Nat) (past : List Lookup) : MetricCatalog :=
  match (past.filterMap fun l => fetch? l.contacts).getLast? with
  | none => .empty lifetime
  | some (names, taken) => .ofNames names taken lifetime

section
variable {lifetime : Nat} {past : List Lookup} {l : Lookup}

@[simp] theorem lifetime_stored : (stored lifetime past).lifetime = lifetime := by
  unfold stored
  split <;> rfl

end

/-! ## Histories -/

section
variable {σ : Type} (clock : Clock σ) (backend : MetricsBackend σ) {lifetime : Nat}

end

/-- A world at a time, with what a listing would give. -/
def worldAt (time : Nat) (listing : Except MetricsFailure (List String)) : Scripted.Scenario :=
  { Scripted.Scenario.ofReplies [] with listings := [listing], ticks := time }

/-- The clock that shows the time of a world. -/
def worldClock : Clock Scripted.Scenario := ⟨fun s => (s.ticks, s), fun s => (s.ticks, s)⟩

end CatalogCache

end AskMetrics
