import AskMetrics.Text.Blank

/-!
# Candidate models

A request is put to one model after another, in a fixed order of priority. The list is set once
and shared by all requests.
-/
namespace AskMetrics.Generation

open AskMetrics.Text

/-- A model and its place in the order; rank 0 is tried first. -/
structure Candidate where
  id : String
  rank : Nat
  deriving DecidableEq, Repr

/-- Models in the order in which they are tried. -/
structure CandidateList where
  ids : List String
  deriving DecidableEq, Repr

namespace CandidateList

/-- The list of some identifiers: trimmed, without blank ones, each at its first place. -/
def ofIds (ids : List String) : CandidateList :=
  ⟨((ids.map trimString).filter (· ≠ "")).foldl
    (fun seen id => if seen.contains id then seen else seen ++ [id]) []⟩

/-- The list in a text with commas between identifiers, unless none is in it. -/
def parse? (csv : String) : Option CandidateList :=
  let list := ofIds ((pieces (· == ',') csv.toList).map .ofList)
  if list.ids.isEmpty then none else some list

/-- The number of models. -/
def size (list : CandidateList) : Nat := list.ids.length

/-- The model at a place. -/
def get? (list : CandidateList) (rank : Nat) : Option Candidate :=
  list.ids[rank]?.map fun id => ⟨id, rank⟩

/-- All models with their ranks. -/
def toList (list : CandidateList) : List Candidate :=
  list.ids.zipIdx.map fun (id, rank) => ⟨id, rank⟩

/-- The models that are tried when nothing else is set. -/
def standard : CandidateList :=
  ofIds ["gemini-2.5-flash", "gemini-2.5-flash-preview-05-20", "gemini-2.5-pro",
    "gemini-flash-latest", "gemini-pro-latest"]

end CandidateList

end AskMetrics.Generation
