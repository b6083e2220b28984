import AskMetrics.Query.Check
import Mathlib.Data.List.Basic

/-!
# What the checks say

The checks on a query stop at the first broken rule. Here they are as one statement: a text passes
when it passes each of them, and an accepted query is the normal form of the text it was found in.
-/
namespace AskMetrics.Query

open AskMetrics.Text

/-- A text in normal form that passes all checks. -/
structure Passes (s : List Char) : Prop where
  long_enough : minLength ≤ s.length
  closed : leavesOpen s = false
  shapes : ∀ rule ∈ shapeRules, breaks (mask s) rule = false
  balanced : isBalanced (mask s) = true
  identifier : hasIdentifier s = true
  short_enough : s.length ≤ maxLength

theorem find?_shapeRules_eq_none_iff {masked : List Char} :
    shapeRules.find? (breaks masked) = none ↔ ∀ rule ∈ shapeRules, breaks masked rule = false := by
  simp [List.find?_eq_none]

theorem brokenRule?_eq_none_iff {s : List Char} : brokenRule? s = none ↔ Passes s := by
  constructor
  · intro h
    unfold brokenRule? at h
    rcases hfind : shapeRules.find? (breaks (mask s)) with _ | rule
    · simp only [hfind] at h
      split_ifs at h with hshort hopen hbalanced hident hlong
      exact ⟨Nat.le_of_not_lt hshort, by simpa using hopen,
        find?_shapeRules_eq_none_iff.mp hfind, by simpa using hbalanced, by simpa using hident,
        Nat.le_of_not_lt hlong⟩
    · simp only [hfind] at h
      split_ifs at h
  · intro h
    simp [brokenRule?, find?_shapeRules_eq_none_iff.mpr h.shapes, h.closed, h.balanced,
      h.identifier, Nat.not_lt.mpr h.long_enough,
      Nat.not_lt.mpr h.short_enough]

theorem checkNormal_eq_ok_iff {s : List Char} {q : CheckedQuery} :
    checkNormal s = .ok q ↔ Passes s ∧ q = .ofText s := by
  rw [← brokenRule?_eq_none_iff]
  rcases h : brokenRule? s with _ | rule <;> simp [checkNormal, h, eq_comm]

/-- A text that does not pass is turned away. -/
theorem checkNormal_of_not_passes {s : List Char} (h : ¬ Passes s) :
    ∃ v, checkNormal s = .error v := by
  rcases hc : checkNormal s with v | q
  · exact ⟨v, rfl⟩
  · exact absurd (checkNormal_eq_ok_iff.mp hc).1 h

theorem validate_eq_ok_iff {raw : String} {q : CheckedQuery} :
    validate raw = .ok q ↔ Passes (normalize raw.toList) ∧ q = .ofText (normalize raw.toList) :=
  checkNormal_eq_ok_iff

/-- Whether a text in normal form is the answer of a model that declines. -/
def Declines (s : List Char) : Prop := lowerAscii s = lowerAscii noAnswer.toList

theorem screen_eq_query_iff {raw : String} {q : CheckedQuery} :
    screen raw = .ok (.query q) ↔
      ¬ Declines (normalize raw.toList) ∧ Passes (normalize raw.toList) ∧
        q = .ofText (normalize raw.toList) := by
  by_cases h : Declines (normalize raw.toList)
  · have h' : lowerAscii (normalize raw.toList) = lowerAscii noAnswer.toList := h
    simp [screen, h, h']
  · have h' : ¬ lowerAscii (normalize raw.toList) = lowerAscii noAnswer.toList := h
    rcases hc : checkNormal (normalize raw.toList) with v | q'
    · have hpass : ¬ (Passes (normalize raw.toList) ∧ q = .ofText (normalize raw.toList)) := by
        rw [← checkNormal_eq_ok_iff, hc]
        simp
      simpa [screen, h, h', hc, Except.map] using hpass
    · obtain ⟨hpass, rfl⟩ := checkNormal_eq_ok_iff.mp hc
      simp [screen, h, h', hc, hpass, Except.map, @eq_comm _ q]

/-- What is accepted passes all checks. -/
theorem passes_of_accepted {raw : String} {q : CheckedQuery}
    (h : validate raw = .ok q ∨ screen raw = .ok (.query q)) :
    Passes (normalize raw.toList) ∧ q = .ofText (normalize raw.toList) := by
  rcases h with h | h
  · exact validate_eq_ok_iff.mp h
  · exact (screen_eq_query_iff.mp h).2

@[simp] theorem CheckedQuery.toList_text_ofText (s : List Char) :
    (CheckedQuery.ofText s).text.toList = s := by
  simp [ofText]

end AskMetrics.Query
