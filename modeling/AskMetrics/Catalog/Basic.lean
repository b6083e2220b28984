import AskMetrics.Number.Power

/-!
# The catalog of metric names

A catalog is a snapshot of the names that the metrics backend knows, with the time it was taken
and how long it counts as fresh. An empty catalog means that nothing is known, never that no name
is valid.

Times and lifetimes are whole milliseconds, which decides nothing that finer times would decide
otherwise, as the age of a snapshot is compared with whole milliseconds only. A lifetime that does
not fit in a signed 64-bit number of milliseconds never makes a snapshot fresh.
-/
namespace AskMetrics

/-- A snapshot of metric names. -/
structure MetricCatalog where
  /-- The distinct names. -/
  names : List String
  /-- When the snapshot was taken, if it was. -/
  fetchedAt : Option Int
  /-- How long the snapshot counts as fresh. -/
  lifetime : Nat
  deriving DecidableEq, Repr

/-- Some names split by whether a catalog knows them. -/
structure MetricPartition where
  known : List String
  unknown : List String
  deriving DecidableEq, Repr

/-- Whether no name is unknown. -/
def MetricPartition.allKnown (p : MetricPartition) : Bool := p.unknown.isEmpty

namespace MetricCatalog

/-- The catalog that knows nothing. -/
def empty (lifetime : Nat) : MetricCatalog := ⟨[], none, lifetime⟩

/-- The catalog of some names. -/
def ofNames (names : List String) (fetchedAt : Int) (lifetime : Nat) : MetricCatalog :=
  ⟨names.eraseDups, some fetchedAt, lifetime⟩

/-- The longest lifetime that can be compared with. -/
def maxLifetime : Nat := twoTo 63 - 1

/-- Whether the snapshot is younger than its lifetime. -/
def isFresh (c : MetricCatalog) (now : Int) : Bool :=
  match c.fetchedAt with
  | none => false
  | some taken => c.lifetime ≤ maxLifetime && now - taken < c.lifetime

/-- Whether there is no name. -/
def isEmpty (c : MetricCatalog) : Bool := c.names.isEmpty

/-- The number of names. -/
def size (c : MetricCatalog) : Nat := c.names.length

/-- Whether a name is known. -/
def contains (c : MetricCatalog) (name : String) : Bool := c.names.contains name

/-- Splits names by whether they are known. A catalog that knows nothing objects to none. -/
def partition (c : MetricCatalog) (names : List String) : MetricPartition :=
  if c.isEmpty then ⟨names, []⟩
  else ⟨names.filter c.contains, names.filter fun name => !c.contains name⟩

end MetricCatalog

end AskMetrics
