import AskMetrics.Query.Check

/-!
# Applying a look-back window

A window replaces every range selector of a query, such as `[5m]` or `[1h30m]`, wherever it stands.
The result is not checked again.
-/
namespace AskMetrics.Query

open AskMetrics.Text

/-- A range selector: durations in square brackets, each of digits and a unit. -/
def rangeSelector : Pattern :=
  .sequence [.char '[',
    .some (.andThen (.some (.one isDecimal))
      (.orElse (.literal "ms") (.one fun c => "smhdwy".toList.contains c))),
    .char ']']

/-- The range selector of a number of minutes. -/
def minutesSelector (minutes : Nat) : List Char :=
  '[' :: (toString minutes).toList ++ "m]".toList

/-- Replaces all range selectors. No window, or one of zero minutes, leaves the text as it is. -/
def replaceRanges (s : List Char) : Option Nat → List Char
  | none => s
  | some 0 => s
  | some minutes => replaceAll [rangeSelector] (fun _ => minutesSelector minutes) s

/-- The query with a window applied. -/
def CheckedQuery.withWindow (q : CheckedQuery) (window : Option Nat) : CheckedQuery :=
  .ofText (replaceRanges q.text.toList window)

end AskMetrics.Query
