import AskMetrics.Generation.Candidate
import AskMetrics.Query.Metrics
import Mathlib.Data.List.Basic

/-!
# First occurrences

Candidate models and metric names are collected one by one, and what is there already is passed
over. The result is the list without its later duplicates.
-/
namespace AskMetrics

variable {α : Type} [BEq α] [LawfulBEq α]

/-- Collecting the members of a list after those seen before. -/
theorem foldl_insert_eq (seen xs : List α) :
    xs.foldl (fun seen x => if seen.contains x then seen else seen ++ [x]) seen =
      seen ++ (xs.filter fun x => !seen.contains x).eraseDups := by
  induction xs generalizing seen with
  | nil => simp
  | cons x xs ih =>
    rw [List.foldl_cons, ih]
    by_cases h : x ∈ seen
    · simp [h]
    · have hrest : (xs.filter fun y => !(seen ++ [x]).contains y) =
          (xs.filter fun y => !seen.contains y).filter fun y => !y == x := by
        rw [List.filter_filter]
        congr 1
        funext y
        by_cases hy : y = x <;> simp [hy]
      have hnew : seen.contains x = false := by simpa using h
      rw [hnew, if_neg Bool.false_ne_true, hrest, List.filter_cons_of_pos (by simpa using h),
        List.eraseDups_cons, List.append_assoc, List.singleton_append]

theorem nodup_eraseDups : ∀ xs : List α, xs.eraseDups.Nodup
  | [] => by simp
  | x :: xs => by
    have hlen := List.length_filter_le (fun y => !y == x) xs
    have ih := nodup_eraseDups (xs.filter fun y => !y == x)
    rw [List.eraseDups_cons, List.nodup_cons, List.mem_eraseDups]
    exact ⟨by simp, ih⟩
  termination_by xs => xs.length
  decreasing_by simp only [List.length_cons]; omega

/-- The names of a query are the first occurrences among the names found. -/
theorem Query.distinct_eq_eraseDups (xs : List α) : Query.distinct xs = xs.eraseDups := by
  have h := foldl_insert_eq [] xs
  simpa [Query.distinct] using h

/-- The models of a list are the first occurrences of the identifiers, trimmed and not blank. -/
theorem Generation.CandidateList.ids_ofIds (ids : List String) :
    (ofIds ids).ids = ((ids.map Text.trimString).filter (· ≠ "")).eraseDups := by
  have h := foldl_insert_eq [] ((ids.map Text.trimString).filter (· ≠ ""))
  simpa [ofIds] using h

theorem Generation.CandidateList.nodup_ids_ofIds (ids : List String) :
    (ofIds ids).ids.Nodup := by
  rw [ids_ofIds]
  exact nodup_eraseDups _

end AskMetrics
