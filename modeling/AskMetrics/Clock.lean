/-!
# Clocks

Time is read from a clock, and reading may change the state of the world like any other contact
with it. So a statement about all clocks speaks of all readings in all orders.

Wall time is counted in whole milliseconds. All that it decides is whether a snapshot is fresh,
that is, whether its age is below a lifetime. Lifetimes are set in whole seconds, so they are whole
milliseconds too, and an age is below one exactly when it is so rounded down
(`MetricCatalog.isFresh_add_age_iff`). So whatever happens under a clock with finer readings also
happens under one that shows, after a snapshot is taken, the time at which it was taken and its age
rounded down. Otherwise wall time is only told, in the report of health, to the millisecond.
-/
namespace AskMetrics

/-- Nanoseconds in a millisecond. -/
def nanosPerMilli : Nat := 1000000

/-- Nanoseconds in a second. -/
def nanosPerSecond : Nat := 1000000000

/-- Where times are read. -/
structure Clock (σ : Type) where
  /-- Milliseconds since 1970. -/
  wall : σ → Int × σ
  /-- Nanoseconds since the service started. -/
  uptime : σ → Nat × σ

/-- The clock that stands still. -/
def Clock.still {σ : Type} (wall : Int) (uptime : Nat) : Clock σ :=
  ⟨fun s => (wall, s), fun s => (uptime, s)⟩

end AskMetrics
