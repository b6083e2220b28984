import AskMetrics.Catalog.Callers
import AskMetrics.Proofs.Catalog.Cache
import Mathlib.Data.List.Induction

/-!
# One listing at a time

However many callers there are and in whatever order they go on, the names are listed by the one
whose turn it is, and only because it has found the snapshot stale during its turn. So a second
listing is never for nothing: the first one failed, was cancelled, or gave a snapshot that has
become stale.
-/
namespace AskMetrics

open Prometheus

/-- Whether a call is between the start of its listing and the change of the snapshot. -/
def Phase.isRefreshing : Phase → Bool
  | listing | storing _ => true
  | _ => false

/-- Whether a call has come to its end. -/
def Phase.isOver : Phase → Bool
  | finished _ | cancelled => true
  | _ => false

/-- Whether a step is a caller's own. -/
def Event.advances {τ : Type} : Event τ → Bool
  | tick _ | cancelled _ => false
  | _ => true

theorem Phase.hasTurn_of_isRefreshing {p : Phase} (h : p.isRefreshing = true) :
    p.hasTurn = true := by
  cases p <;> simp_all [isRefreshing, hasTurn]

namespace Callers

/-- The calls that have their turn are the one whose turn it is. -/
def TurnHeld {τ : Type} (s : Callers τ) : Prop :=
  ∀ t, (s.phase t).hasTurn = true ↔ s.turn = some t

/-- Two calls that have their turn are the same. -/
theorem TurnHeld.unique {τ : Type} {s : Callers τ} (h : s.TurnHeld) {t u : τ}
    (ht : (s.phase t).hasTurn = true) (hu : (s.phase u).hasTurn = true) : t = u :=
  Option.some.inj (((h t).mp ht).symm.trans ((h u).mp hu))

variable {τ : Type} [DecidableEq τ]

/-! ## Moves -/

section
variable (s : Callers τ) (t u : τ) (p : Phase)

@[simp] theorem phase_move_self : (s.move t p).phase t = p := by simp [move]

theorem phase_move_ne {t u : τ} (h : u ≠ t) : (s.move t p).phase u = s.phase u := by
  simp [move, h]

theorem phase_move : (s.move t p).phase u = if u = t then p else s.phase u := rfl

@[simp] theorem turn_move : (s.move t p).turn = s.turn := rfl

@[simp] theorem cache_move : (s.move t p).cache = s.cache := rfl

@[simp] theorem now_move : (s.move t p).now = s.now := rfl

end

/-! ## Turns -/

/-- A step keeps what is said of turns. A call comes to a phase with its turn from one with it, from
its free turn, or goes without it. -/
theorem TurnHeld.step {s s' : Callers τ} {e : Event τ} (h : s.TurnHeld) (hstep : s.Step e s') :
    s'.TurnHeld := by
  have hmove : ∀ {t p}, p.hasTurn = (s.phase t).hasTurn → (s.move t p).TurnHeld := by
    intro t p hp u
    rw [phase_move, turn_move, ← h u]
    split_ifs with hu
    · rw [hp, hu]
    · rfl
  -- the turn goes back when a call that has it leaves it
  have hback : ∀ {t p}, p.hasTurn = false → s.turn = some t →
      TurnHeld { s.move t p with turn := none } := by
    intro t p hp ht u
    have hu := h u
    simp only [phase_move]
    split_ifs with hut
    · simp [hp]
    · rw [hu, ht]
      simpa using Ne.symm hut
  cases hstep with
  | tick now => exact h
  | found t hp | missed t hp | foundAgain t hp | started t hp | listed t hp | failed t hp =>
    exact hmove (by rw [hp]; rfl)
  | entered t hp hfree =>
    intro u
    have hu := h u
    simp only [phase_move]
    split_ifs with hut
    · simp [hut, Phase.hasTurn]
    · rw [hu, hfree]
      simpa using Ne.symm hut
  | stored t hp => exact hmove (by rw [hp]; rfl)
  | left t hp => exact hback rfl ((h t).mp (by rw [hp]; rfl))
  | cancelled t hp =>
    split_ifs with hturn
    · exact hback rfl ((h t).mp hturn)
    · exact hmove (by simpa [Phase.hasTurn] using hturn)

section
variable {cache : CatalogCache} {now : Int} {trace past : List (Event τ)} {s s' : Callers τ}
  {e : Event τ}

theorem turn_reached (h : Reached cache now trace s) : s.TurnHeld := by
  induction h with
  | start => simp [TurnHeld, initial, Phase.hasTurn]
  | step _ hstep ih => exact ih.step hstep

/-- A call that has its turn can go on. -/
theorem exists_step_of_hasTurn {t : τ} (h : (s.phase t).hasTurn = true) :
    ∃ e s', s.Step e s' ∧ e.advances = true := by
  cases ht : s.phase t with
  | lookingAgain =>
    cases hfresh : s.cache.snapshot.isFresh s.now with
    | true => exact ⟨_, _, .foundAgain t ht hfresh, rfl⟩
    | false => exact ⟨_, _, .started t ht hfresh, rfl⟩
  | listing => exact ⟨_, _, .listed t ht [], rfl⟩
  | storing catalog => exact ⟨_, _, .stored t ht, rfl⟩
  | leaving catalog => exact ⟨_, _, .left t ht, rfl⟩
  | looking | waiting | finished | cancelled => simp [ht, Phase.hasTurn] at h

/-- No turn is lost: while some call has not come to its end, some caller can go on, since a call
waits for nothing but the turn of another one. -/
theorem exists_step_of_not_isOver (h : Reached cache now trace s) {t : τ}
    (ht : (s.phase t).isOver = false) : ∃ e s', s.Step e s' ∧ e.advances = true := by
  cases hp : s.phase t with
  | looking =>
    cases hfresh : s.cache.snapshot.isFresh s.now with
    | true => exact ⟨_, _, .found t hp hfresh, rfl⟩
    | false => exact ⟨_, _, .missed t hp hfresh, rfl⟩
  | waiting =>
    cases hturn : s.turn with
    | none => exact ⟨_, _, .entered t hp hturn, rfl⟩
    | some u => exact exists_step_of_hasTurn ((turn_reached h u).mpr hturn)
  | lookingAgain | listing | storing | leaving =>
    exact exists_step_of_hasTurn (t := t) (by rw [hp]; rfl)
  | finished | cancelled => simp [hp, Phase.isOver] at ht

/-! ## Before and after -/

/-- What has happened last has happened before what there is now. -/
theorem Reached.of_concat (h : Reached cache now (past ++ [e]) s) :
    ∃ before, Reached cache now past before ∧ before.Step e s := by
  generalize htrace : past ++ [e] = trace at h
  cases h with
  | start => simp at htrace
  | step h hstep =>
    obtain ⟨rfl, rfl⟩ := by simpa using List.append_inj' htrace rfl
    exact ⟨_, h, hstep⟩

/-- What there was before some of what has happened. -/
theorem Reached.of_append {later : List (Event τ)} (h : Reached cache now (past ++ later) s) :
    ∃ before, Reached cache now past before := by
  induction later using List.reverseRecOn generalizing s with
  | nil => exact ⟨s, by simpa using h⟩
  | append_singleton later e ih =>
    rw [← List.append_assoc] at h
    obtain ⟨before, hbefore, -⟩ := h.of_concat
    exact ih hbefore

/-- What has come of the listing of a call since it started: it is still going on, or no listing is,
and it failed, was cancelled, or gave the snapshot that there is now. -/
inductive Since (t : τ) (between : List (Event τ)) (s : Callers τ) : Prop
  | underway (h : (s.phase t).isRefreshing = true)
  | ended (hidle : ∀ u, (s.phase u).isRefreshing = false)
    (h : (∃ failure, .failed t failure ∈ between) ∨ .cancelled t ∈ between ∨
      ∃ catalog, .stored t catalog ∈ between ∧ s.cache.snapshot = catalog)

/-- Nothing but the start of a listing begins to refresh. -/
theorem isRefreshing_move (h : ∀ u, (s.phase u).isRefreshing = false) {t : τ} {p : Phase}
    (hp : p.isRefreshing = false) (u : τ) : ((s.move t p).phase u).isRefreshing = false := by
  rw [phase_move]
  split_ifs
  · exact hp
  · exact h u

/-- When the one that refreshes stops, nobody does. -/
theorem TurnHeld.isRefreshing_move (hturn : s.TurnHeld) {t : τ}
    (ht : (s.phase t).isRefreshing = true) {p : Phase} (hp : p.isRefreshing = false) (u : τ) :
    ((s.move t p).phase u).isRefreshing = false := by
  rw [phase_move]
  split_ifs with hut
  · exact hp
  · by_contra hu
    rw [Bool.not_eq_false] at hu
    exact hut (hturn.unique (Phase.hasTurn_of_isRefreshing hu) (Phase.hasTurn_of_isRefreshing ht))

/-- A listing that is going on goes on, unless it is its own caller's step that ends it. -/
theorem Since.step_underway {t : τ} {between : List (Event τ)}
    (h : (s.phase t).isRefreshing = true) (hturn : s.TurnHeld) (hstep : s.Step e s')
    (hno : ∀ u time, e ≠ .started u time) : Since t (between ++ [e]) s' := by
  have hother : ∀ {u p}, t ≠ u → ((s.move u p).phase t).isRefreshing = true := by
    intro u p hne
    rwa [phase_move_ne s p hne]
  have hne : ∀ {u p}, s.phase u = p → p.isRefreshing = false → t ≠ u := by
    rintro u p hu hp rfl
    simp [hu, hp] at h
  cases hstep with
  | tick now => exact .underway h
  | found u hu | missed u hu | entered u hu | foundAgain u hu | left u hu =>
    exact .underway (hother (hne hu rfl))
  | started u _ => exact absurd rfl (hno u s.now)
  | listed u hu names =>
    refine .underway ?_
    by_cases htu : t = u
    · simp [htu, Phase.isRefreshing]
    · exact hother htu
  | failed u hu failure =>
    by_cases htu : t = u
    · subst htu
      exact .ended (hturn.isRefreshing_move h rfl) (.inl ⟨failure, by simp⟩)
    · exact .underway (hother htu)
  | @stored u catalog hu =>
    by_cases htu : t = u
    · subst htu
      exact .ended (hturn.isRefreshing_move h rfl) (.inr (.inr ⟨catalog, by simp, rfl⟩))
    · exact .underway (hother htu)
  | cancelled u hu =>
    by_cases htu : t = u
    · subst htu
      exact .ended (hturn.isRefreshing_move h rfl) (.inr (.inl (by simp)))
    · exact .underway (hother htu)

/-- When no listing is going on, none ends and the snapshot stays, until another one starts. -/
theorem Since.step_ended {t : τ} {between : List (Event τ)}
    (hidle : ∀ u, (s.phase u).isRefreshing = false)
    (h : (∃ failure, .failed t failure ∈ between) ∨ .cancelled t ∈ between ∨
      ∃ catalog, .stored t catalog ∈ between ∧ s.cache.snapshot = catalog)
    (hstep : s.Step e s') (hno : ∀ u time, e ≠ .started u time) : Since t (between ++ [e]) s' := by
  have hkept : ∀ {s' : Callers τ}, s'.cache = s.cache → (∀ u, (s'.phase u).isRefreshing = false) →
      Since t (between ++ [e]) s' := by
    intro s' hcache hidle'
    refine .ended hidle' ?_
    rw [hcache]
    exact h.imp (fun ⟨failure, hf⟩ => ⟨failure, List.mem_append_left _ hf⟩)
      (.imp (List.mem_append_left _) fun ⟨catalog, hc, heq⟩ =>
        ⟨catalog, List.mem_append_left _ hc, heq⟩)
  have hnot : ∀ {u p}, s.phase u = p → p.isRefreshing ≠ true := by
    rintro u p rfl
    simp [hidle u]
  cases hstep with
  | tick now => exact hkept rfl hidle
  | found u | missed u | entered u | foundAgain u | left u | cancelled u =>
    exact hkept rfl (isRefreshing_move hidle rfl)
  | started u _ => exact absurd rfl (hno u s.now)
  | listed u hu | failed u hu | stored u hu => exact absurd rfl (hnot hu)

theorem Since.step {t : τ} {between : List (Event τ)} (h : Since t between s)
    (hturn : s.TurnHeld) (hstep : s.Step e s') (hno : ∀ u time, e ≠ .started u time) :
    Since t (between ++ [e]) s' := by
  cases h with
  | underway h => exact .step_underway h hturn hstep hno
  | ended hidle h => exact .step_ended hidle h hstep hno

/-- Where the catalog that a call gives comes from. -/
inductive Justified (cache : CatalogCache) (now : Int) (trace : List (Event τ)) (t : τ)
    (catalog : MetricCatalog) : Prop
  /-- It was the snapshot, and fresh, when the call looked at it. -/
  | fresh {past later : List (Event τ)} {before : Callers τ}
    (htrace : trace = past ++ .found t before.now catalog :: later)
    (hbefore : Reached cache now past before) (hsnapshot : before.cache.snapshot = catalog)
    (hfresh : catalog.isFresh before.now = true)
  /-- The call has listed it and made it the snapshot. -/
  | listed {names : List String} {taken : Int} (hlisted : .listed t names taken ∈ trace)
    (hstored : .stored t catalog ∈ trace) (hcatalog : catalog = .ofNames names taken cache.lifetime)
  /-- It is empty, and the listing of the call has failed. -/
  | failed {failure : MetricsFailure} (hfailed : .failed t failure ∈ trace)
    (hcatalog : catalog = .empty cache.lifetime)

theorem Justified.append {t : τ} {catalog : MetricCatalog}
    (h : Justified cache now trace t catalog) (e : Event τ) :
    Justified cache now (trace ++ [e]) t catalog := by
  cases h with
  | fresh htrace hbefore hsnapshot hfresh =>
    exact .fresh (by rw [htrace, List.append_assoc, List.cons_append]) hbefore hsnapshot hfresh
  | listed hlisted hstored hcatalog =>
    exact .listed (List.mem_append_left _ hlisted) (List.mem_append_left _ hstored) hcatalog
  | failed hfailed hcatalog => exact .failed (List.mem_append_left _ hfailed) hcatalog

/-- What a phase says of what has happened to the call. -/
def Backed (cache : CatalogCache) (now : Int) (trace : List (Event τ)) (t : τ) : Phase → Prop
  | .storing catalog => ∃ names taken, .listed t names taken ∈ trace ∧
    catalog = .ofNames names taken cache.lifetime
  | .leaving catalog | .finished catalog => Justified cache now trace t catalog
  | _ => True

theorem Backed.append {t : τ} {p : Phase} (h : Backed cache now trace t p) (e : Event τ) :
    Backed cache now (trace ++ [e]) t p := by
  cases p with
  | storing catalog =>
    obtain ⟨names, taken, hlisted, hcatalog⟩ := h
    exact ⟨names, taken, List.mem_append_left _ hlisted, hcatalog⟩
  | leaving catalog | finished catalog => exact Justified.append h e
  | _ => trivial

end

end Callers

end AskMetrics
