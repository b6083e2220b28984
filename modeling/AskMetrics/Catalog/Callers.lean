import AskMetrics.Catalog.Cache

/-!
# Callers side by side

Many callers may ask one cache for the catalog at the same time. Each looks at the snapshot, waits
for its turn if that is stale, looks again, and lists the names if it is still stale. Between any
two of these steps other callers may go on, time may pass, and the caller itself may be cancelled
where it waits for something. Only one caller at a time has its turn; it gives it back when it
leaves or is cancelled.

A single look and a single change of the snapshot happen at once, since no caller waits for
anything in the middle of them. Nothing is assumed of the order in which callers get their turn,
and the clock may jump.
-/
namespace AskMetrics

open Prometheus

/-- How far a call for the catalog has come. -/
inductive Phase where
  /-- It is about to look at the snapshot. -/
  | looking
  /-- It waits for its turn. -/
  | waiting
  /-- It has its turn and is about to look again. -/
  | lookingAgain
  /-- It lists the names. -/
  | listing
  /-- It has listed the names and waits to change the snapshot. -/
  | storing (catalog : MetricCatalog)
  /-- It has its catalog and is about to give its turn back. -/
  | leaving (catalog : MetricCatalog)
  | finished (catalog : MetricCatalog)
  | cancelled
  deriving DecidableEq, Repr

namespace Phase

/-- Whether the call has its turn. -/
def hasTurn : Phase → Bool
  | lookingAgain | listing | storing _ | leaving _ => true
  | looking | waiting | finished _ | cancelled => false

/-- Whether the call waits for something, so that it can be cancelled. -/
def isSuspended : Phase → Bool
  | looking | waiting | lookingAgain | listing | storing _ => true
  | leaving _ | finished _ | cancelled => false

end Phase

/-- What happens, with the caller to which it happens. -/
inductive Event (τ : Type) where
  /-- The time is another one. -/
  | tick (now : Int)
  /-- A look finds the snapshot fresh. -/
  | found (t : τ) (now : Int) (catalog : MetricCatalog)
  /-- The first look finds the snapshot stale. -/
  | missed (t : τ) (now : Int)
  /-- A turn begins. -/
  | entered (t : τ)
  /-- The second look finds the snapshot stale, and a listing starts. -/
  | started (t : τ) (now : Int)
  /-- A listing gives the names. -/
  | listed (t : τ) (names : List String) (taken : Int)
  /-- A listing fails. -/
  | failed (t : τ) (failure : MetricsFailure)
  /-- The snapshot is changed. -/
  | stored (t : τ) (catalog : MetricCatalog)
  /-- A turn ends, and the call with it. -/
  | left (t : τ) (catalog : MetricCatalog)
  /-- A call is cancelled. -/
  | cancelled (t : τ)

/-- The cache, the time and the calls. -/
structure Callers (τ : Type) where
  cache : CatalogCache
  now : Int
  /-- Whose turn it is. -/
  turn : Option τ
  phase : τ → Phase

namespace Callers
variable {τ : Type} [DecidableEq τ]

/-- All calls are still to come. -/
def initial (cache : CatalogCache) (now : Int) : Callers τ := ⟨cache, now, none, fun _ => .looking⟩

/-- One call comes to another phase. -/
def move (s : Callers τ) (t : τ) (p : Phase) : Callers τ :=
  { s with phase := fun u => if u = t then p else s.phase u }

/-- What may happen, and what there is afterwards. -/
inductive Step (s : Callers τ) : Event τ → Callers τ → Prop
  | tick (now : Int) : Step s (.tick now) { s with now := now }
  | found (t : τ) (h : s.phase t = .looking) (hfresh : s.cache.snapshot.isFresh s.now = true) :
    Step s (.found t s.now s.cache.snapshot) (s.move t (.finished s.cache.snapshot))
  | missed (t : τ) (h : s.phase t = .looking) (hstale : s.cache.snapshot.isFresh s.now = false) :
    Step s (.missed t s.now) (s.move t .waiting)
  | entered (t : τ) (h : s.phase t = .waiting) (hfree : s.turn = none) :
    Step s (.entered t) { s.move t .lookingAgain with turn := some t }
  | foundAgain (t : τ) (h : s.phase t = .lookingAgain)
    (hfresh : s.cache.snapshot.isFresh s.now = true) :
    Step s (.found t s.now s.cache.snapshot) (s.move t (.leaving s.cache.snapshot))
  | started (t : τ) (h : s.phase t = .lookingAgain)
    (hstale : s.cache.snapshot.isFresh s.now = false) :
    Step s (.started t s.now) (s.move t .listing)
  | listed (t : τ) (h : s.phase t = .listing) (names : List String) :
    Step s (.listed t names s.now) (s.move t (.storing (.ofNames names s.now s.cache.lifetime)))
  | failed (t : τ) (h : s.phase t = .listing) (failure : MetricsFailure) :
    Step s (.failed t failure) (s.move t (.leaving (.empty s.cache.lifetime)))
  | stored (t : τ) {catalog : MetricCatalog} (h : s.phase t = .storing catalog) :
    Step s (.stored t catalog)
      { s.move t (.leaving catalog) with cache := { s.cache with snapshot := catalog } }
  | left (t : τ) {catalog : MetricCatalog} (h : s.phase t = .leaving catalog) :
    Step s (.left t catalog) { s.move t (.finished catalog) with turn := none }
  | cancelled (t : τ) (h : (s.phase t).isSuspended = true) :
    Step s (.cancelled t)
      { s.move t .cancelled with turn := if (s.phase t).hasTurn then none else s.turn }

/-- What may have happened since all calls were still to come, and what there is then. -/
inductive Reached (cache : CatalogCache) (now : Int) : List (Event τ) → Callers τ → Prop
  | start : Reached cache now [] (.initial cache now)
  | step {past : List (Event τ)} {e : Event τ} {s s' : Callers τ} (h : Reached cache now past s)
    (hstep : s.Step e s') : Reached cache now (past ++ [e]) s'

end Callers

end AskMetrics
