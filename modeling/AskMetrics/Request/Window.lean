import AskMetrics.Number.Decimal
import AskMetrics.Text.Pattern

/-!
# Look-back windows in requests

A request can name the time it asks about: "for 15 minutes", "last 2 hours", "3 days". The window
is counted in whole minutes. One found in the text goes before one given beside it.
-/
namespace AskMetrics.Request

open AskMetrics.Text

/-- A way to name a window: what stands before the number, the unit after it, and how many minutes
the unit has. -/
structure Phrase where
  lead : Pattern
  unit : Pattern
  factor : Nat

/-- One of some words with case ignored. -/
def anyOf (ws : List String) : Pattern :=
  .oneOf (ws.map .anyCase)

/-- A number with an optional fraction, in the digits of any script. -/
def numberPattern : Pattern :=
  .andThen (.some (.one isDecimal))
    (.optional (.andThen (.char '.') (.some (.one isDecimal))))

/-- A word and blanks before the number. -/
def afterWord (word : String) : Pattern :=
  .sequence [.edge, .anyCase word, .someBlanks]

/-- The number starts the text or stands after a character that neither belongs to a word nor is a
point, so that the 5 of "1.5 hours" is not read on its own. -/
def freeStanding : Pattern :=
  .orElse .atStart (.one fun c => !isWord c && c != '.')

/-- The unit of minutes. -/
def minutes : Pattern := anyOf ["minutes", "minute", "mins", "min", "m"]

/-- The ways to name a window, in the order in which they are tried. -/
def phrases : List Phrase :=
  [⟨afterWord "for", minutes, 1⟩, ⟨afterWord "last", minutes, 1⟩, ⟨freeStanding, minutes, 1⟩,
    ⟨freeStanding, anyOf ["hours", "hour", "hrs", "hr", "h"], 60⟩,
    ⟨freeStanding, anyOf ["days", "day", "d"], 1440⟩]

/-- The parts of a phrase; the second is the number. -/
def Phrase.parts (p : Phrase) : List Pattern :=
  [p.lead, numberPattern, .sequence [.blanks, p.unit, .edge]]

/-- The largest window in minutes. -/
def maxWindow : Nat := twoTo 32 - 1

/-- The window that the first occurrence of a phrase names, if it is at least one minute and not
too large. -/
def Phrase.window? (p : Phrase) (s : List Char) : Option Nat := do
  let found ← findFirst p.parts s
  let n ← Double.read? (found.part 1)
  let minutes ← (n.mul (.ofNat p.factor)).roundNat?
  if 1 ≤ minutes && minutes ≤ maxWindow then some minutes else none

/-- The window that a text names, in minutes. -/
def detectWindow (request : String) : Option Nat :=
  phrases.findSome? fun p => p.window? request.toList

/-- A window that is not zero. -/
def positive (window : Option Nat) : Option Nat :=
  window.filter (0 < ·)

/-- The window to apply: a positive one that was detected, else a positive one that was asked
for. -/
def reconcile (detected requested : Option Nat) : Option Nat :=
  (positive detected).or (positive requested)

/-- The windows of one request. -/
structure Windows where
  /-- The window that the text names. -/
  detected : Option Nat
  /-- The window given beside the text. -/
  requested : Option Nat
  deriving DecidableEq, Repr

/-- The window to apply. -/
def Windows.effective (w : Windows) : Option Nat := reconcile w.detected w.requested

end AskMetrics.Request
