/-!
# Label sets

A label set gives each of finitely many label names a value. The names are kept in ascending
order, so two label sets with the same labels are equal.
-/
namespace AskMetrics.Prometheus

/-- Label names with values, in ascending order of the names. -/
structure LabelSet where
  pairs : List (String × String)
  sorted : (pairs.map (·.1)).Pairwise (· < ·)
  deriving DecidableEq, Repr

namespace LabelSet

/-- No labels. -/
def empty : LabelSet := ⟨[], .nil⟩

/-- Puts a pair in its place, instead of one with the same name. -/
def insertPair (name value : String) : List (String × String) → List (String × String)
  | [] => [(name, value)]
  | (n, v) :: rest =>
    if name < n then (name, value) :: (n, v) :: rest
    else if name = n then (name, value) :: rest
    else (n, v) :: insertPair name value rest

theorem mem_insertPair {name value x : String} {pairs : List (String × String)}
    (h : x ∈ (insertPair name value pairs).map (·.1)) : x = name ∨ x ∈ pairs.map (·.1) := by
  induction pairs with
  | nil => simpa [insertPair] using h
  | cons p rest ih =>
    obtain ⟨n, v⟩ := p
    simp only [insertPair] at h
    split at h
    · simpa using h
    · split at h
      · simp at h ⊢
        grind
      · simp only [List.map_cons, List.mem_cons] at h ⊢
        grind

theorem sorted_insertPair (name value : String) {pairs : List (String × String)}
    (h : (pairs.map (·.1)).Pairwise (· < ·)) :
    ((insertPair name value pairs).map (·.1)).Pairwise (· < ·) := by
  induction pairs with
  | nil => simp [insertPair]
  | cons p rest ih =>
    obtain ⟨n, v⟩ := p
    simp only [List.map_cons, List.pairwise_cons] at h
    simp only [insertPair]
    split
    · simp only [List.map_cons, List.pairwise_cons, List.mem_cons]
      exact ⟨by grind [String.lt_trans], h⟩
    · split
      · simp only [List.map_cons, List.pairwise_cons]
        grind
      · simp only [List.map_cons, List.pairwise_cons]
        refine ⟨fun x hx => ?_, ih h.2⟩
        rcases mem_insertPair hx with rfl | hx
        · grind
        · exact h.1 x hx

/-- Gives a name a value, in place of an earlier one. -/
def insert (labels : LabelSet) (name value : String) : LabelSet :=
  ⟨insertPair name value labels.pairs, sorted_insertPair name value labels.sorted⟩

end LabelSet

end AskMetrics.Prometheus
