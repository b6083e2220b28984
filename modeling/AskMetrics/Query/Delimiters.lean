/-!
# Balanced delimiters

Round, square and curly brackets are counted apart from each other: no kind may close more often
than it has opened, and all must be closed at the end. Interleaved kinds are not an error here.
-/
namespace AskMetrics.Query

/-- The numbers of open brackets. -/
structure Depths where
  round : Nat
  square : Nat
  curly : Nat
  deriving DecidableEq, Repr

namespace Depths

/-- Nothing is open. -/
def zero : Depths := ⟨0, 0, 0⟩

/-- The brackets open after a character, or nothing when it closes what is not open. -/
def next? (d : Depths) : Char → Option Depths
  | '(' => some { d with round := d.round + 1 }
  | ')' => if d.round = 0 then none else some { d with round := d.round - 1 }
  | '[' => some { d with square := d.square + 1 }
  | ']' => if d.square = 0 then none else some { d with square := d.square - 1 }
  | '{' => some { d with curly := d.curly + 1 }
  | '}' => if d.curly = 0 then none else some { d with curly := d.curly - 1 }
  | _ => some d

end Depths

/-- Whether a text closes all the given brackets and its own, none before it opens. -/
def closes : Depths → List Char → Bool
  | d, [] => d = .zero
  | d, c :: cs =>
    match d.next? c with
    | none => false
    | some e => closes e cs

/-- Whether every bracket of a text is matched within its kind. -/
def isBalanced (s : List Char) : Bool :=
  closes .zero s

end AskMetrics.Query
