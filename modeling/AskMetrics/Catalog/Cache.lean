import AskMetrics.Catalog.Basic
import AskMetrics.Clock
import AskMetrics.Prometheus.Backend

/-!
# The catalog cache

The names that the metrics backend knows are kept while they are fresh. When they are not, the
next caller lists them anew; whoever comes in between waits, looks again, and finds them fresh. A
failed listing leaves what is kept as it was and gives the empty catalog, which objects to no
name.
-/
namespace AskMetrics

open Prometheus

/-- What came of a listing. -/
inductive RefreshStatus where
  | success
  | failure
  deriving DecidableEq, Repr

/-- The label of a listing in counters. -/
def RefreshStatus.label : RefreshStatus → String
  | success => "success"
  | failure => "failure"

/-- The snapshot that is kept. -/
structure CatalogCache where
  /-- How long a snapshot counts as fresh, in milliseconds. -/
  lifetime : Nat
  snapshot : MetricCatalog
  deriving DecidableEq, Repr

/-- The catalog that a caller gets. -/
structure CatalogReading where
  catalog : MetricCatalog
  /-- What came of the listing, if there was one. -/
  refresh : Option RefreshStatus
  deriving DecidableEq, Repr

namespace CatalogCache

/-- The cache that keeps nothing yet. -/
def ofLifetime (lifetime : Nat) : CatalogCache := ⟨lifetime, .empty lifetime⟩

/-- The kept snapshot, if the clock says that it is fresh. -/
def fresh? {σ : Type} (cache : CatalogCache) (clock : Clock σ) (s : σ) :
    Option MetricCatalog × σ :=
  let (now, s) := clock.wall s
  (if cache.snapshot.isFresh now then some cache.snapshot else none, s)

/-- Lists the names and keeps them if that goes well. -/
def refresh {σ : Type} (cache : CatalogCache) (clock : Clock σ) (backend : MetricsBackend σ)
    (s : σ) : CatalogReading × CatalogCache × σ :=
  match backend.listNames s with
  | (.ok names, s) =>
    let (now, s) := clock.wall s
    let catalog := MetricCatalog.ofNames names now cache.lifetime
    (⟨catalog, some .success⟩, { cache with snapshot := catalog }, s)
  | (.error _, s) => (⟨.empty cache.lifetime, some .failure⟩, cache, s)

/-- The catalog to check names against. The snapshot is looked at before and after waiting for
one's turn to list. -/
def current {σ : Type} (cache : CatalogCache) (clock : Clock σ) (backend : MetricsBackend σ)
    (s : σ) : CatalogReading × CatalogCache × σ :=
  match cache.fresh? clock s with
  | (some catalog, s) => (⟨catalog, none⟩, cache, s)
  | (none, s) =>
    match cache.fresh? clock s with
    | (some catalog, s) => (⟨catalog, none⟩, cache, s)
    | (none, s) => cache.refresh clock backend s

end CatalogCache

end AskMetrics
