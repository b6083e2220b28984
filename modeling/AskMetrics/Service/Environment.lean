import AskMetrics.Number.Natural
import AskMetrics.Text.Blank
import AskMetrics.Text.Case

/-!
# Environment variables

Settings come from named variables, each of which is set to a text or not set at all. One of them
says what kind of deployment this is, and some defaults depend on it.
-/
namespace AskMetrics.Service

open AskMetrics.Text

/-- An assignment of texts to the names that are set. -/
abbrev Variables := String → Option String

namespace Variables

/-- The number that a variable is set to, if it is one and at most `most`. -/
def nat? (vars : Variables) (name : String) (most : Nat) : Option Nat := do
  readNat? most (trim (← vars name).toList)

/-- The positive number that a variable is set to. -/
def positive? (vars : Variables) (name : String) (most : Nat) : Option Nat :=
  (vars.nat? name most).filter (0 < ·)

/-- The words between the commas of a variable, trimmed, without the empty ones. -/
def words (vars : Variables) (name : String) : List String :=
  match vars name with
  | none => []
  | some s =>
    ((pieces (· == ',') s.toList).map trim |>.filter (· ≠ [])).map .ofList

end Variables

/-- Whether a text is a word in any letter case. -/
def isWordInAnyCase (word s : String) : Bool := lowered s.toList == word.toList

/-- What kind of deployment this is. -/
inductive Deployment where
  | development
  | test
  | production
  deriving DecidableEq, Repr

namespace Deployment

/-- The name of a deployment. -/
def name : Deployment → String
  | development => "development"
  | test => "test"
  | production => "production"

/-- The deployment that a text names. Anything unknown is development. -/
def ofText (s : String) : Deployment :=
  let word := String.ofList (lowered (trim s.toList))
  if word == "production" || word == "prod" then production
  else if word == "test" then test
  else development

/-- The deployment that the variables name. -/
def ofVariables (vars : Variables) : Deployment :=
  match (vars "SEXTANT_ENV").or (vars "NODE_ENV") with
  | some s => ofText s
  | none => development

end Deployment

end AskMetrics.Service
