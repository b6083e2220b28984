import AskMetrics.Proofs.Catalog.Cache

/-!
# Longer lifetimes

A snapshot that is kept longer is listed anew less often. This is so as long as the longer lifetime
can be compared with: one beyond that makes no snapshot fresh, and each lookup lists the names.

Two caches with different lifetimes are compared lookup by lookup, in the same worlds. The one with
the longer lifetime may list the names when the other one does not, but only when it has listed them
less often so far: with as many listings, whenever the other snapshot is fresh its own is fresh too.
-/
namespace AskMetrics

open Prometheus

namespace MetricCatalog
variable {names names' : List String} {taken taken' now : Int} {short long : Nat}

theorem isFresh_ofNames_iff :
    (ofNames names taken short).isFresh now = true ↔ short ≤ maxLifetime ∧ now - taken < short := by
  change (decide (short ≤ maxLifetime) && decide (now - taken < short)) = true ↔ _
  simp

/-- The whole milliseconds of an age decide the same as the age itself, given in nanoseconds. -/
theorem isFresh_add_age_iff (age : Int) :
    (ofNames names taken short).isFresh (taken + age / nanosPerMilli) = true ↔
      short ≤ maxLifetime ∧ age < short * nanosPerMilli := by
  have hround : age / nanosPerMilli < short ↔ age < short * nanosPerMilli :=
    Int.ediv_lt_iff_lt_mul (by decide)
  rw [isFresh_ofNames_iff, ← hround]
  omega

/-- A fresh snapshot is fresh as well if it is taken later and kept longer. -/
theorem isFresh_of_lifetime_le (h : short ≤ long)
    (hlimit : long ≤ maxLifetime ∨ maxLifetime < short) (htaken : taken ≤ taken')
    (hfresh : (ofNames names taken short).isFresh now = true) :
    (ofNames names' taken' long).isFresh now = true := by
  rw [isFresh_ofNames_iff] at hfresh ⊢
  omega

/-- Between two lifetimes freshness is monotone if the longer one can be compared with, or if not
even the shorter one can. -/
theorem isFresh_mono_iff (h : short ≤ long) :
    (∀ names taken now, (ofNames names taken short).isFresh now = true →
        (ofNames names taken long).isFresh now = true) ↔
      long ≤ maxLifetime ∨ maxLifetime < short := by
  refine ⟨fun hmono => ?_, fun hlimit names taken now =>
    isFresh_of_lifetime_le h hlimit (Int.le_refl taken)⟩
  by_contra hlimit
  -- a snapshot from the future is fresh with every lifetime that can be compared with
  have hfresh : (ofNames [] 1 short).isFresh 0 = true := by
    rw [isFresh_ofNames_iff]
    omega
  have hlong := isFresh_ofNames_iff.mp (hmono [] 1 0 hfresh)
  omega

/-- A fresh snapshot was fresh at each earlier reading. -/
theorem isFresh_of_le {catalog : MetricCatalog} {earlier : Int} (h : earlier ≤ now)
    (hfresh : catalog.isFresh now = true) : catalog.isFresh earlier = true := by
  cases htaken : catalog.fetchedAt with
  | none => simp [isFresh, htaken] at hfresh
  | some taken =>
    simp only [isFresh, htaken, Bool.and_eq_true, decide_eq_true_eq] at hfresh ⊢
    omega

end MetricCatalog

namespace CatalogCache

/-! ## Lookups by what they are shown -/

/-- What a world shows to a lookup: the two readings at which the snapshot is judged, the answer to
a listing, and the reading after that. -/
structure View where
  now : Int
  later : Int
  answer : Except MetricsFailure (List String)
  taken : Int

/-- The readings of a view, in order. -/
def View.readings (v : View) : List Int := [v.now, v.later, v.taken]

/-- What a world shows. -/
def view {σ : Type} (clock : Clock σ) (backend : MetricsBackend σ) (s : σ) : View :=
  let (now, s) := clock.wall s
  let (later, s) := clock.wall s
  let (answer, s) := backend.listNames s
  ⟨now, later, answer, (clock.wall s).1⟩

/-- Whether the kept snapshot is fresh at one of the two readings. -/
def isFreshIn (cache : CatalogCache) (v : View) : Bool :=
  cache.snapshot.isFresh v.now || cache.snapshot.isFresh v.later

/-- The cache after a lookup. -/
def next (cache : CatalogCache) (v : View) : CatalogCache :=
  if cache.isFreshIn v then cache
  else match v.answer with
    | .ok names => { cache with snapshot := .ofNames names v.taken cache.lifetime }
    | .error _ => cache

/-- The answers to all listings in a row of lookups. -/
def listings (ls : List Lookup) : List (Except MetricsFailure (List String)) :=
  ls.flatMap fun l => answers l.contacts

/-- A lookup lists the names, and changes the cache, exactly if the snapshot is not fresh at one of
the readings. -/
theorem lookup_view {σ : Type} (cache : CatalogCache) (clock : Clock σ)
    (backend : MetricsBackend σ) (s : σ) :
    answers (cache.lookup clock backend s).contacts =
        (if cache.isFreshIn (view clock backend s) then [] else [(view clock backend s).answer]) ∧
      (cache.lookup clock backend s).after = cache.next (view clock backend s) := by
  obtain ⟨now, s₁, hnow⟩ : ∃ now s₁, clock.wall s = (now, s₁) := ⟨_, _, rfl⟩
  obtain ⟨later, s₂, hlater⟩ : ∃ later s₂, clock.wall s₁ = (later, s₂) := ⟨_, _, rfl⟩
  obtain ⟨answer, s₃, hanswer⟩ : ∃ answer s₃, backend.listNames s₂ = (answer, s₃) := ⟨_, _, rfl⟩
  obtain ⟨taken, s₄, htaken⟩ : ∃ taken s₄, clock.wall s₃ = (taken, s₄) := ⟨_, _, rfl⟩
  have hview : view clock backend s = ⟨now, later, answer, taken⟩ := by
    simp [view, hnow, hlater, hanswer, htaken]
  rw [hview]
  by_cases hfresh : cache.snapshot.isFresh now = true
  · simp [lookup, current, fresh?, recordedClock, hnow, hfresh, isFreshIn, next, answers]
  by_cases hfresh' : cache.snapshot.isFresh later = true
  · simp [lookup, current, fresh?, recordedClock, hnow, hfresh, hlater, hfresh', isFreshIn, next,
      answers]
  cases answer <;>
    simp [lookup, current, fresh?, refresh, recordedClock, recordedBackend, hnow, hfresh, hlater,
      hfresh', hanswer, htaken, isFreshIn, next, answers]

/-! ## Two caches side by side -/

/-- How many snapshots a lookup takes. -/
def gain (cache : CatalogCache) (v : View) : Nat :=
  if !cache.isFreshIn v && v.answer.isOk then 1 else 0

/-- How a cache with a longer lifetime compares with one with a shorter lifetime after some lookups,
when the short one has taken `m` snapshots, the long one `n`, and the readings still to come are
`rest`. -/
structure Ahead (rest : List Int) (short long : CatalogCache) (m n : Nat) : Prop where
  le : n ≤ m
  /-- What is fresh in the short one is its own snapshot, no later than the readings to come. -/
  own : ∀ time, short.snapshot.isFresh time = true → ∃ names taken,
    short.snapshot = .ofNames names taken short.lifetime ∧ ∀ r ∈ rest, taken ≤ r
  /-- After as many snapshots the long one is fresh whenever the short one is. -/
  fresh : n = m → ∀ time, short.snapshot.isFresh time = true → long.snapshot.isFresh time = true

section
variable {short long : CatalogCache} {v : View} {rest : List Int} {m n : Nat}

@[simp] theorem lifetime_next (cache : CatalogCache) (v : View) :
    (cache.next v).lifetime = cache.lifetime := by
  unfold next
  split_ifs
  · rfl
  · split <;> rfl

/-- Two caches between whose lifetimes freshness is monotone. -/
structure Outlasts (short long : CatalogCache) : Prop where
  le : short.lifetime ≤ long.lifetime
  limit : long.lifetime ≤ MetricCatalog.maxLifetime ∨ MetricCatalog.maxLifetime < short.lifetime

/-- One lookup in the same world. -/
theorem Ahead.step (h : Ahead (v.readings ++ rest) short long m n) (hlong : Outlasts short long)
    (hordered : (v.readings ++ rest).Pairwise (· ≤ ·)) :
    Ahead rest (short.next v) (long.next v) (m + short.gain v) (n + long.gain v) := by
  have hown : ∀ time, short.snapshot.isFresh time = true → ∃ names taken,
      short.snapshot = .ofNames names taken short.lifetime ∧ ∀ r ∈ rest, taken ≤ r := by
    intro time htime
    obtain ⟨names, taken, hsnapshot, hrest⟩ := h.own time htime
    exact ⟨names, taken, hsnapshot, fun r hr => hrest r (List.mem_append_right _ hr)⟩
  have htaken : ∀ r ∈ rest, v.taken ≤ r := fun r hr =>
    (List.pairwise_append.mp hordered).2.2 v.taken (by simp [View.readings]) r hr
  have hlater : ∀ names names' taken time, taken ≤ v.taken →
      (MetricCatalog.ofNames names taken short.lifetime).isFresh time = true →
      (MetricCatalog.ofNames names' v.taken long.lifetime).isFresh time = true :=
    fun _ _ _ _ => MetricCatalog.isFresh_of_lifetime_le hlong.le hlong.limit
  rcases hanswer : v.answer with failure | names
  · -- a failed listing changes nothing
    have hnext : ∀ cache : CatalogCache, cache.next v = cache := fun cache => by
      simp [next, hanswer]
    have hgain : ∀ cache : CatalogCache, cache.gain v = 0 := fun cache => by
      simp [gain, hanswer, Except.isOk, Except.toBool]
    simp only [hnext, hgain, Nat.add_zero]
    exact ⟨h.le, hown, h.fresh⟩
  · have hfresh : ∀ cache : CatalogCache, cache.isFreshIn v = true →
        cache.next v = cache ∧ cache.gain v = 0 := fun cache hc => by simp [next, gain, hc]
    have hstale : ∀ cache : CatalogCache, cache.isFreshIn v = false →
        cache.next v = ⟨cache.lifetime, .ofNames names v.taken cache.lifetime⟩ ∧
          cache.gain v = 1 := fun cache hc => by
      simp [next, gain, hc, hanswer, Except.isOk, Except.toBool]
    cases hshort : short.isFreshIn v with
    | false =>
      rw [(hstale short hshort).1, (hstale short hshort).2]
      cases hlist : long.isFreshIn v with
      | true =>
        rw [(hfresh long hlist).1, (hfresh long hlist).2]
        have hle := h.le
        exact ⟨by omega, fun _ _ => ⟨names, v.taken, rfl, htaken⟩, fun heq => by omega⟩
      | false =>
        rw [(hstale long hlist).1, (hstale long hlist).2]
        exact ⟨Nat.succ_le_succ h.le, fun _ _ => ⟨names, v.taken, rfl, htaken⟩,
          fun _ time => hlater names names v.taken time (Int.le_refl _)⟩
    | true =>
      rw [(hfresh short hshort).1, (hfresh short hshort).2]
      cases hlist : long.isFreshIn v with
      | true =>
        rw [(hfresh long hlist).1, (hfresh long hlist).2]
        exact ⟨h.le, hown, h.fresh⟩
      | false =>
        rw [(hstale long hlist).1, (hstale long hlist).2]
        -- the long one would be fresh if it had taken as many snapshots
        have hlt : n < m := by
          refine Nat.lt_of_le_of_ne h.le fun heq => ?_
          simp only [isFreshIn, Bool.or_eq_true, Bool.or_eq_false_iff] at hshort hlist
          rcases hshort with hnow | hnow
          · simp [h.fresh heq _ hnow] at hlist
          · simp [h.fresh heq _ hnow] at hlist
        refine ⟨by omega, hown, fun _ time htime => ?_⟩
        obtain ⟨names', taken, hsnapshot, hrest⟩ := h.own time htime
        rw [hsnapshot] at htime
        exact hlater names' names taken time (hrest _ (by simp [View.readings])) htime

/-- Any number of lookups in the same worlds. -/
theorem countP_listings_le {σ : Type} {clock : Clock σ} {backend : MetricsBackend σ}
    {worlds : List σ}
    (h : Ahead (worlds.flatMap fun s => (view clock backend s).readings) short long m n)
    (hlong : Outlasts short long)
    (hordered : (worlds.flatMap fun s => (view clock backend s).readings).Pairwise (· ≤ ·)) :
    n + (listings (lookups clock backend long worlds)).countP Except.isOk ≤
      m + (listings (lookups clock backend short worlds)).countP Except.isOk := by
  induction worlds generalizing short long m n with
  | nil => simpa [lookups, listings] using h.le
  | cons s worlds ih =>
    rw [List.flatMap_cons] at h hordered
    have hcons : ∀ cache : CatalogCache,
        (listings (lookups clock backend cache (s :: worlds))).countP Except.isOk =
          cache.gain (view clock backend s) +
            (listings (lookups clock backend (cache.next (view clock backend s)) worlds)).countP
              Except.isOk := by
      intro cache
      obtain ⟨hanswers, hafter⟩ := lookup_view cache clock backend s
      rw [lookups, listings, List.flatMap_cons, List.countP_append, hanswers, hafter, gain]
      congr 1
      cases cache.isFreshIn (view clock backend s) <;> simp [List.countP_singleton]
    have hnext : Outlasts (short.next (view clock backend s)) (long.next (view clock backend s)) :=
      ⟨by simpa using hlong.le, by simpa using hlong.limit⟩
    have hrest := ih (h.step hlong hordered) hnext (List.pairwise_append.mp hordered).2.1
    rw [hcons, hcons]
    omega

/-- The answers to listings are those that the worlds show. -/
theorem exists_view_of_mem_listings {σ : Type} {clock : Clock σ} {backend : MetricsBackend σ}
    {cache : CatalogCache} {worlds : List σ} {answer : Except MetricsFailure (List String)}
    (h : answer ∈ listings (lookups clock backend cache worlds)) :
    ∃ s ∈ worlds, (view clock backend s).answer = answer := by
  induction worlds generalizing cache with
  | nil => simp [lookups, listings] at h
  | cons s worlds ih =>
    rw [lookups, listings, List.flatMap_cons, List.mem_append,
      (lookup_view cache clock backend s).1] at h
    rcases h with h | h
    · split_ifs at h
      · simp at h
      · exact ⟨s, .head _, (List.mem_singleton.mp h).symm⟩
    · obtain ⟨s', hs', hanswer⟩ := ih h
      exact ⟨s', .tail _ hs', hanswer⟩

/-- With the same snapshot kept, a lookup lists the names at most as often with a lifetime that
makes it fresh whenever the other one does. -/
theorem length_answers_le {σ : Type} (clock : Clock σ) (backend : MetricsBackend σ) (s : σ)
    (h : ∀ now, short.snapshot.isFresh now = true → long.snapshot.isFresh now = true) :
    (answers (long.lookup clock backend s).contacts).length ≤
      (answers (short.lookup clock backend s).contacts).length := by
  have hfresh : short.isFreshIn (view clock backend s) = true →
      long.isFreshIn (view clock backend s) = true := by
    simp only [isFreshIn, Bool.or_eq_true]
    exact Or.imp (h _) (h _)
  rw [(lookup_view long clock backend s).1, (lookup_view short clock backend s).1]
  by_cases hlong : long.isFreshIn (view clock backend s) = true
  · simp [hlong]
  · simp [hlong, mt hfresh hlong]

/-- A lifetime that cannot be compared with makes each lookup list the names. -/
theorem length_listings_of_maxLifetime_lt {σ : Type} (clock : Clock σ) (backend : MetricsBackend σ)
    (worlds : List σ) {cache : CatalogCache} (h : MetricCatalog.maxLifetime < cache.lifetime)
    (hkept : cache.snapshot.lifetime = cache.lifetime) :
    (listings (lookups clock backend cache worlds)).length = worlds.length := by
  induction worlds generalizing cache with
  | nil => rfl
  | cons s worlds ih =>
    have hstale : cache.isFreshIn (view clock backend s) = false := by
      have hnever : ∀ now, cache.snapshot.isFresh now = false := fun now => by
        unfold MetricCatalog.isFresh
        split
        · rfl
        · simp [hkept, Nat.not_le.mpr h]
      simp [isFreshIn, hnever]
    obtain ⟨hanswers, hafter⟩ := lookup_view cache clock backend s
    have hlimit : MetricCatalog.maxLifetime < (cache.next (view clock backend s)).lifetime := by
      simpa using h
    have hnext : (cache.next (view clock backend s)).snapshot.lifetime =
        (cache.next (view clock backend s)).lifetime := by
      simp only [next, hstale, Bool.false_eq_true, if_false]
      split
      · rfl
      · exact hkept
    have hrest := ih hlimit hnext
    rw [listings] at hrest
    rw [lookups, listings, List.flatMap_cons, List.length_append, hanswers, hafter, hrest]
    simp [hstale, Nat.add_comm]

end

/-! ## Longer lifetimes -/

/-- **Kept longer, listed less often.** A snapshot that is fresh at some reading is fresh at each
earlier one. Between two lifetimes, whatever is fresh with the shorter one is fresh with the longer
one exactly if the longer one can still be compared with, or if not even the shorter one can. Then
a lookup lists the names at most as often with the longer lifetime, if the same snapshot is kept;
and in any worlds whose clock does not go back, so do all lookups together, but for listings that
fail. With a lifetime that cannot be compared with each lookup lists the names. -/
theorem freshness_mono {short long : Nat} (h : short ≤ long) :
    (∀ (catalog : MetricCatalog) (earlier now : Int), earlier ≤ now →
      catalog.isFresh now = true → catalog.isFresh earlier = true) ∧
    ((∀ names taken now, (MetricCatalog.ofNames names taken short).isFresh now = true →
        (MetricCatalog.ofNames names taken long).isFresh now = true) ↔
      long ≤ MetricCatalog.maxLifetime ∨ MetricCatalog.maxLifetime < short) ∧
    ∀ {σ : Type} (clock : Clock σ) (backend : MetricsBackend σ) (worlds : List σ),
      (long ≤ MetricCatalog.maxLifetime ∨ MetricCatalog.maxLifetime < short →
        (∀ names taken s,
          (answers (lookup ⟨long, .ofNames names taken long⟩ clock backend s).contacts).length ≤
            (answers
              (lookup ⟨short, .ofNames names taken short⟩ clock backend s).contacts).length) ∧
        ((worlds.flatMap fun s => (view clock backend s).readings).Pairwise (· ≤ ·) →
          (listings (lookups clock backend (.ofLifetime long) worlds)).countP Except.isOk ≤
              (listings (lookups clock backend (.ofLifetime short) worlds)).countP Except.isOk ∧
            ((∀ s ∈ worlds, (view clock backend s).answer.isOk = true) →
              (listings (lookups clock backend (.ofLifetime long) worlds)).length ≤
                (listings (lookups clock backend (.ofLifetime short) worlds)).length))) ∧
      (MetricCatalog.maxLifetime < long →
        (listings (lookups clock backend (.ofLifetime long) worlds)).length = worlds.length) := by
  refine ⟨fun _ _ _ => MetricCatalog.isFresh_of_le, MetricCatalog.isFresh_mono_iff h,
    fun clock backend worlds => ⟨fun hlimit => ⟨fun names taken s => ?_, fun hordered => ?_⟩,
      fun hbeyond => length_listings_of_maxLifetime_lt clock backend worlds hbeyond rfl⟩⟩
  · exact length_answers_le clock backend s
      ((MetricCatalog.isFresh_mono_iff h).mpr hlimit names taken)
  · have hnone : ∀ time, (MetricCatalog.empty short).isFresh time ≠ true := fun _ => nofun
    have hstart : Ahead (worlds.flatMap fun s => (view clock backend s).readings)
        (.ofLifetime short) (.ofLifetime long) 0 0 :=
      ⟨Nat.le_refl _, fun time htime => absurd htime (hnone time),
        fun _ time htime => absurd htime (hnone time)⟩
    have hcount := countP_listings_le hstart ⟨h, hlimit⟩ hordered
    rw [Nat.zero_add, Nat.zero_add] at hcount
    refine ⟨hcount, fun hok => ?_⟩
    have hall : ∀ cache : CatalogCache,
        (listings (lookups clock backend cache worlds)).countP Except.isOk =
          (listings (lookups clock backend cache worlds)).length := by
      intro cache
      rw [List.countP_eq_length]
      intro answer hanswer
      obtain ⟨s, hs, rfl⟩ := exists_view_of_mem_listings hanswer
      exact hok s hs
    rwa [hall, hall] at hcount

/-- A backend that always answers, asked at four times. -/
def visits : List Scripted.Scenario :=
  [0, 10, 15, 20].map fun time => worldAt time (.ok ["up"])

theorem freshness_mono_visits :
    (listings (lookups worldClock (Scripted.Scenario.metrics "prometheus") (.ofLifetime 15)
        visits)).length ≤
      (listings (lookups worldClock (Scripted.Scenario.metrics "prometheus") (.ofLifetime 10)
        visits)).length :=
  (((freshness_mono (by decide : 10 ≤ 15)).2.2 worldClock (Scripted.Scenario.metrics "prometheus")
    visits).1 (.inl (by decide +kernel))).2 (by decide +kernel) |>.2 (by decide +kernel)

/-- Two lifetimes that are one second apart: with the longer one a snapshot that has just been taken
is stale, and each visit lists the names. -/
theorem freshness_beyond_maxLifetime :
    (MetricCatalog.ofNames ["up"] 0 9223372036854775000).isFresh 0 = true ∧
      (MetricCatalog.ofNames ["up"] 0 9223372036854776000).isFresh 0 = false ∧
      (listings (lookups worldClock (Scripted.Scenario.metrics "prometheus")
        (.ofLifetime 9223372036854775000) visits)).length = 1 ∧
      (listings (lookups worldClock (Scripted.Scenario.metrics "prometheus")
        (.ofLifetime 9223372036854776000) visits)).length = 4 := by
  decide +kernel

end CatalogCache

end AskMetrics
