import AskMetrics.Proofs.Catalog.Callers

/-!
# A caller alone

A call that nobody disturbs is a lookup of the cache: it asks the same of the world, gives the same
catalog and leaves the same cache behind. So what is known of lookups one after the other is the
case of a single caller at a time.
-/
namespace AskMetrics

open Prometheus

namespace Event
variable {τ : Type}

/-- What a step asks of the world. -/
@[simp] def contacts : Event τ → List CatalogCache.Contact
  | .found _ now _ | .missed _ now | .started _ now => [.reading now]
  | .listed _ names taken => [.listing (.ok names), .reading taken]
  | .failed _ failure => [.listing (.error failure)]
  | .tick _ | .entered _ | .stored _ _ | .left _ _ | .cancelled _ => []

/-- Whose step it is. -/
@[simp] def caller? : Event τ → Option τ
  | .tick _ => none
  | .found t _ _ | .missed t _ | .entered t | .started t _ | .listed t _ _ | .failed t _
  | .stored t _ | .left t _ | .cancelled t => some t

end Event

namespace Callers
variable {τ : Type} [DecidableEq τ]

/-- What may have happened when all steps are those of one call. -/
structure Alone (cache : CatalogCache) (now : Int) (t : τ) (trace : List (Event τ))
    (s : Callers τ) : Prop where
  reached : Reached cache now trace s
  own : ∀ e ∈ trace, ∀ u ∈ e.caller?, u = t

/-- How far a lookup in a cache has come with a phase when nobody else changes the cache: what it
has asked of the world, and the cache then. -/
inductive Underway (cache : CatalogCache) : Phase → List CatalogCache.Contact → CatalogCache → Prop
  | looking : Underway cache .looking [] cache
  | waiting (now : Int) (h : cache.snapshot.isFresh now = false) :
    Underway cache .waiting [.reading now] cache
  | lookingAgain (now : Int) (h : cache.snapshot.isFresh now = false) :
    Underway cache .lookingAgain [.reading now] cache
  | listing (now later : Int) (h : cache.snapshot.isFresh now = false)
    (hlater : cache.snapshot.isFresh later = false) :
    Underway cache .listing [.reading now, .reading later] cache
  | storing (now later : Int) (h : cache.snapshot.isFresh now = false)
    (hlater : cache.snapshot.isFresh later = false) (names : List String) (taken : Int) :
    Underway cache (.storing (.ofNames names taken cache.lifetime))
      [.reading now, .reading later, .listing (.ok names), .reading taken] cache
  | leaving {contacts : List CatalogCache.Contact} {reading : CatalogReading} {after : CatalogCache}
    (h : CatalogCache.Course cache contacts reading after) :
    Underway cache (.leaving reading.catalog) contacts after
  | finished {contacts : List CatalogCache.Contact} {reading : CatalogReading}
    {after : CatalogCache} (h : CatalogCache.Course cache contacts reading after) :
    Underway cache (.finished reading.catalog) contacts after
  | cancelled (contacts : List CatalogCache.Contact) (after : CatalogCache) :
    Underway cache .cancelled contacts after

section
variable {cache : CatalogCache} {now : Int} {trace : List (Event τ)} {s s' : Callers τ}
  {e : Event τ} {t : τ} {contacts : List CatalogCache.Contact}

/-- A step of the only call there is takes it on its course. -/
theorem Underway.step (h : Underway cache (s.phase t) contacts s.cache) (hstep : s.Step e s')
    (hown : ∀ u ∈ e.caller?, u = t) :
    Underway cache (s'.phase t) (contacts ++ e.contacts) s'.cache := by
  generalize hkept : s.cache = kept at h
  have hphase : ∀ {u p}, e.caller? = some u → s.phase u = p →
      u = t ∧ Underway cache p contacts kept := by
    rintro u p hu rfl
    obtain rfl := hown u hu
    exact ⟨rfl, h⟩
  cases hstep with
  | tick time => simpa [hkept] using h
  | found u hu hfresh =>
    obtain ⟨rfl, hfar⟩ := hphase rfl hu
    cases hfar
    simpa [hkept] using Underway.finished (.fresh s.now (hkept ▸ hfresh))
  | missed u hu hstale =>
    obtain ⟨rfl, hfar⟩ := hphase rfl hu
    cases hfar
    simpa [hkept] using Underway.waiting s.now (hkept ▸ hstale)
  | entered u hu =>
    obtain ⟨rfl, hfar⟩ := hphase rfl hu
    cases hfar with | waiting time htime =>
    simpa [hkept] using Underway.lookingAgain time htime
  | foundAgain u hu hfresh =>
    obtain ⟨rfl, hfar⟩ := hphase rfl hu
    cases hfar with | lookingAgain time htime =>
    simpa [hkept] using
      Underway.leaving (.freshLater time s.now htime (hkept ▸ hfresh))
  | started u hu hstale =>
    obtain ⟨rfl, hfar⟩ := hphase rfl hu
    cases hfar with | lookingAgain time htime =>
    simpa [hkept] using Underway.listing time s.now htime (hkept ▸ hstale)
  | listed u hu names =>
    obtain ⟨rfl, hfar⟩ := hphase rfl hu
    cases hfar with | listing time later htime hlater =>
    simpa [hkept] using Underway.storing time later htime hlater names s.now
  | failed u hu failure =>
    obtain ⟨rfl, hfar⟩ := hphase rfl hu
    cases hfar with | listing time later htime hlater =>
    simpa [hkept] using Underway.leaving (.failed time later htime hlater failure)
  | stored u hu =>
    obtain ⟨rfl, hfar⟩ := hphase rfl hu
    cases hfar with | storing time later htime hlater names taken =>
    simpa [hkept] using
      Underway.leaving (.listed time later htime hlater names taken)
  | left u hu =>
    obtain ⟨rfl, hfar⟩ := hphase rfl hu
    cases hfar with | leaving hcourse =>
    simpa [hkept] using Underway.finished hcourse
  | cancelled u hu =>
    obtain ⟨rfl, -⟩ := hphase rfl rfl
    simpa using Underway.cancelled _ _

/-- How far a call that is alone has come. -/
theorem underway_of_alone (h : Alone cache now t trace s) :
    Underway cache (s.phase t) (trace.flatMap Event.contacts) s.cache := by
  obtain ⟨hreached, hown⟩ := h
  induction hreached with
  | start => exact .looking
  | step _ hstep ih =>
    rw [List.flatMap_append, List.flatMap_singleton]
    exact (ih fun e he => hown e (List.mem_append_left _ he)).step hstep (hown _ (by simp))

theorem Alone.step (h : Alone cache now t trace s) (hstep : s.Step e s')
    (hown : ∀ u ∈ e.caller?, u = t) : Alone cache now t (trace ++ [e]) s' where
  reached := h.reached.step hstep
  own e' he' := by
    rcases List.mem_append.mp he' with he' | he'
    · exact h.own e' he'
    · rwa [List.mem_singleton.mp he']

variable (cache now t) in
/-- A call that is alone looks at any time. -/
theorem alone_looking (time : Int) :
    Alone cache now t [.tick time] { Callers.initial cache now with now := time } where
  reached := Reached.start.step (.tick time)
  own := by simp

variable (now t) in
/-- If the snapshot is stale then, it looks again at any time. -/
theorem exists_alone_lookingAgain {time : Int} (h : cache.snapshot.isFresh time = false)
    (later : Int) :
    ∃ trace s, Alone cache now t trace s ∧ s.phase t = .lookingAgain ∧ s.now = later ∧
      s.cache = cache ∧ trace.flatMap Event.contacts = [.reading time] := by
  have hmissed := (alone_looking cache now t time).step (.missed t rfl h) (by simp)
  have hentered := hmissed.step (.entered t (by simp) rfl) (by simp)
  refine ⟨_, _, hentered.step (.tick later) (by simp), by simp, rfl, rfl, ?_⟩
  simp

variable (now t) in
/-- If the snapshot is still stale, it lists the names, for any time. -/
theorem exists_alone_listing {time later : Int} (h : cache.snapshot.isFresh time = false)
    (hlater : cache.snapshot.isFresh later = false) (taken : Int) :
    ∃ trace s, Alone cache now t trace s ∧ s.phase t = .listing ∧ s.now = taken ∧
      s.cache = cache ∧ trace.flatMap Event.contacts = [.reading time, .reading later] := by
  obtain ⟨trace, s, halone, ht, rfl, rfl, hcontacts⟩ := exists_alone_lookingAgain now t h later
  have hstarted := halone.step (.started t ht hlater) (by simp)
  refine ⟨_, _, hstarted.step (.tick taken) (by simp), by simp, rfl, rfl, ?_⟩
  simp [hcontacts]

/-- Each course of a lookup is that of a call that is alone. -/
theorem exists_alone_of_course (now : Int) (t : τ) {reading : CatalogReading}
    {after : CatalogCache} (h : CatalogCache.Course cache contacts reading after) :
    ∃ trace s, Alone cache now t trace s ∧ s.phase t = .finished reading.catalog ∧
      s.cache = after ∧ trace.flatMap Event.contacts = contacts := by
  cases h with
  | fresh time htime =>
    refine ⟨_, _, (alone_looking cache now t time).step (.found t rfl htime)
      (by simp), by simp [initial], rfl, by simp⟩
  | freshLater time later htime hlater =>
    obtain ⟨trace, s, halone, ht, rfl, rfl, hcontacts⟩ :=
      exists_alone_lookingAgain now t htime later
    have hfound := halone.step (.foundAgain t ht hlater) (by simp)
    refine ⟨_, _, hfound.step (.left t (phase_move_self _ _ _)) (by simp), by simp,
      rfl, by simp [hcontacts]⟩
  | listed time later htime hlater names taken =>
    obtain ⟨trace, s, halone, ht, rfl, rfl, hcontacts⟩ :=
      exists_alone_listing now t htime hlater taken
    have hlisted := halone.step (.listed t ht names) (by simp)
    have hstored := hlisted.step (.stored t (phase_move_self _ _ _)) (by simp)
    refine ⟨_, _, hstored.step (.left t (phase_move_self _ _ _)) (by simp), by simp,
      rfl, by simp [hcontacts]⟩
  | failed time later htime hlater failure =>
    obtain ⟨trace, s, halone, ht, -, rfl, hcontacts⟩ :=
      exists_alone_listing now t htime hlater later
    have hfailed := halone.step (.failed t ht failure) (by simp)
    refine ⟨_, _, hfailed.step (.left t (phase_move_self _ _ _)) (by simp), by simp,
      rfl, by simp [hcontacts]⟩

/-- What a call that is alone asks, gives and leaves behind is a course of a lookup, and each course
is that of such a call. -/
theorem exists_course_iff_alone (now : Int) (t : τ) {catalog : MetricCatalog}
    {after : CatalogCache} :
    (∃ refresh, CatalogCache.Course cache contacts ⟨catalog, refresh⟩ after) ↔
      ∃ trace s, Alone cache now t trace s ∧ s.phase t = .finished catalog ∧ s.cache = after ∧
        trace.flatMap Event.contacts = contacts := by
  constructor
  · rintro ⟨refresh, hcourse⟩
    exact exists_alone_of_course now t hcourse
  · rintro ⟨trace, s, halone, ht, rfl, rfl⟩
    have hfar := underway_of_alone halone
    rw [ht] at hfar
    generalize s.cache = after at hfar ⊢
    cases hfar with | finished hcourse =>
    exact ⟨_, hcourse⟩

end

end Callers

end AskMetrics
