import AskMetrics.Text.Blank
import AskMetrics.Text.Word

/-!
# Log filters

A log filter says how much of the log is kept. It is a list of directives: a level for everything,
or the start of a target with a level for it. Of the directives that fit a line, the one with the
longest target decides.
-/
namespace AskMetrics.Service

open AskMetrics.Text

/-- How much a line of a log matters. -/
inductive LogLevel where
  | error
  | warn
  | info
  | debug
  | trace
  deriving DecidableEq, Repr

namespace LogLevel

/-- The name of a level. -/
def name : LogLevel → String
  | error => "ERROR"
  | warn => "WARN"
  | info => "INFO"
  | debug => "DEBUG"
  | trace => "TRACE"

/-- How many levels are kept when a level is. -/
def rank : LogLevel → Nat
  | error => 1
  | warn => 2
  | info => 3
  | debug => 4
  | trace => 5

end LogLevel

/-- A part of a filter: lines whose target starts with a text are kept up to a rank. -/
structure Directive where
  target : List Char
  rank : Nat
  /-- Whether the directive is about lines within a span. -/
  isSpan : Bool
  deriving DecidableEq, Repr

/-- A list of directives. -/
structure LogFilter where
  directives : List Directive
  deriving DecidableEq, Repr

/-- The rank that a text names: a level in any letter case, or its number. -/
def rankOf? (s : List Char) : Option Nat :=
  match String.ofList (s.map Char.toLower) with
  | "off" => some 0
  | "0" => some 0
  | "error" => some 1
  | "1" => some 1
  | "warn" => some 2
  | "2" => some 2
  | "info" => some 3
  | "3" => some 3
  | "debug" => some 4
  | "4" => some 4
  | "trace" => some 5
  | "5" => some 5
  | _ => none

/-- Whether a character may stand in a target. -/
def isTargetChar (c : Char) : Bool := isWord c || c == ':' || c == '-'

namespace Directive

/-- The directive that a text is. A target without a level is kept in full. -/
def ofText? (s : List Char) : Option Directive :=
  match rankOf? s with
  | some rank => some ⟨[], rank, false⟩
  | none =>
    let target := s.takeWhile isTargetChar
    let rest := s.drop target.length
    let (span, rest) := match rest with
      | '[' :: _ => (true, (rest.dropWhile (· != ']')).drop 1)
      | _ => (false, rest)
    if target.isEmpty && !span then none
    else match rest with
      | [] => some ⟨target, 5, span⟩
      | ['='] => some ⟨target, 5, span⟩
      | '=' :: level => (rankOf? level).map fun rank => ⟨target, rank, span⟩
      | _ => none

end Directive

namespace LogFilter

/-- The filter that a text is, if all its parts are directives. An empty text keeps errors. -/
def ofText? (s : String) : Option LogFilter :=
  let parts := (pieces (· == ',') s.toList).filter (· ≠ [])
  if parts.isEmpty then some ⟨[⟨[], 1, false⟩]⟩
  else (parts.mapM Directive.ofText?).map LogFilter.mk

/-- The directives of a text that are any. -/
def ofTextLossy (s : String) : LogFilter :=
  ⟨(pieces (· == ',') s.toList).filterMap Directive.ofText?⟩

/-- The rank up to which lines of a target are kept. -/
def rankFor (filter : LogFilter) (target : String) : Nat :=
  let fitting := filter.directives.filter fun d =>
    !d.isSpan && d.target.isPrefixOf target.toList
  (fitting.foldl
    (fun (best : Nat × Nat) d => if best.1 ≤ d.target.length + 1 then (d.target.length + 1, d.rank)
      else best)
    (0, 0)).2

/-- Whether a line of a target and level is kept. -/
def keeps (filter : LogFilter) (target : String) (level : LogLevel) : Bool :=
  level.rank ≤ filter.rankFor target

end LogFilter

end AskMetrics.Service
