import AskMetrics.Text.Blank
import AskMetrics.Text.Case
import AskMetrics.Text.Word

/-!
# Patterns over text

Most checks look for a shape in a text: a keyword at a word boundary, blanks, a bracket. A
`Pattern` describes such a shape, and `Pattern.ends` lists all places where a match that starts at
a given place can end, most preferred first: alternatives in the order written, repetitions as
long as possible. The first of them is the match that is used. So a place belongs to the list
exactly when the shape fits up to it, and which of several fits is taken is a matter of the list's
order alone.

A pattern given as a list of parts also says what each part matched. `scan` walks a text from left
to right and cuts it into single characters and non-overlapping matches.

## Main definitions

* `Cursor` : a place in a text, as the text before it (nearest first) and the text after it.
* `Pattern`, `Pattern.ends` : shapes and the places where their matches end.
* `Match`, `matchAt` : one match, with the text of each part.
* `Segment`, `scan` : a text cut into characters and matches.
* `occurs`, `findFirst`, `findAll`, `replaceAll` : the four uses of a scan.
-/
namespace AskMetrics.Text

/-- A place in a text. -/
structure Cursor where
  /-- What lies before the place, nearest character first. -/
  behind : List Char
  /-- What lies after the place. -/
  ahead : List Char

namespace Cursor

/-- The place at the start of a text. -/
def start (s : List Char) : Cursor := ⟨[], s⟩

/-- Whether exactly one of the neighbouring characters is a word character. -/
def atEdge (c : Cursor) : Bool :=
  (c.behind.head?.any isWord) != (c.ahead.head?.any isWord)

/-- The text between a place and a later one. -/
def upTo (c later : Cursor) : List Char :=
  c.ahead.take (c.ahead.length - later.ahead.length)

end Cursor

/-- A shape that a part of a text can have. -/
inductive Pattern where
  /-- One character of a class. -/
  | one (accepts : Char → Bool)
  /-- No character, between a word character and something else. -/
  | edge
  /-- No character, before the first one of the text. -/
  | atStart
  /-- No character, after the last one of the text. -/
  | atEnd
  /-- No character, anywhere. -/
  | empty
  /-- One shape after another. -/
  | andThen (first second : Pattern)
  /-- One of two shapes, the first preferred. -/
  | orElse (first second : Pattern)
  /-- Any number of repetitions, more preferred to fewer. -/
  | many (body : Pattern)

/-- All places reached by repeating a step at most `fuel` times, longer runs first, followed by
`rest`. -/
def repeated (step : Cursor → List Cursor) : Nat → Cursor → List Cursor → List Cursor
  | 0, c, rest => c :: rest
  | fuel + 1, c, rest => (step c).foldr (fun d => repeated step fuel d) (c :: rest)

namespace Pattern

/-- All places where a match that starts at a cursor can end, most preferred first. A repetition
takes at least one character each time, so the characters ahead bound the repetitions. -/
def ends : Pattern → Cursor → List Cursor
  | one accepts, c =>
    match c.ahead with
    | [] => []
    | x :: xs => if accepts x then [⟨x :: c.behind, xs⟩] else []
  | edge, c => if c.atEdge then [c] else []
  | atStart, c => if c.behind.isEmpty then [c] else []
  | atEnd, c => if c.ahead.isEmpty then [c] else []
  | empty, c => [c]
  | andThen p q, c => (ends p c).flatMap (ends q)
  | orElse p q, c => ends p c ++ ends q c
  | many p, c => repeated (ends p) c.ahead.length c []

/-- The character `x` itself. -/
def char (x : Char) : Pattern := one (· == x)

/-- The characters of a text, one after another. -/
def literal (s : String) : Pattern :=
  s.toList.foldr (fun x p => andThen (char x) p) empty

/-- The characters of a text given in lower case, with case ignored. -/
def anyCase (s : String) : Pattern :=
  s.toList.foldr (fun x p => andThen (one (sameLetter x)) p) empty

/-- The first of some shapes that fits. -/
def oneOf : List Pattern → Pattern
  | [] => one fun _ => false
  | [p] => p
  | p :: ps => orElse p (oneOf ps)

/-- Some shapes, one after another. -/
def sequence : List Pattern → Pattern
  | [] => empty
  | [p] => p
  | p :: ps => andThen p (sequence ps)

/-- A shape or nothing, the shape preferred. -/
def optional (p : Pattern) : Pattern := orElse p empty

/-- At least one repetition. -/
def some (p : Pattern) : Pattern := andThen p (many p)

/-- At least `n` repetitions. -/
def atLeast : Nat → Pattern → Pattern
  | 0, p => many p
  | n + 1, p => andThen p (atLeast n p)

/-- Any number of blanks. -/
def blanks : Pattern := many (one isBlank)

/-- At least one blank. -/
def someBlanks : Pattern := some (one isBlank)

end Pattern

/-- What a pattern of several parts matched. -/
structure Match where
  /-- The place where the match starts. -/
  start : Cursor
  /-- The text of each part, in order. -/
  parts : List (List Char)
  /-- The place where the match ends. -/
  stop : Cursor

namespace Match

/-- The text of one part, empty when there is no such part. -/
def part (m : Match) (i : Nat) : List Char := m.parts[i]?.getD []

/-- The whole text of the match. -/
def text (m : Match) : List Char := m.parts.flatten

end Match

/-- The preferred way to match some parts one after another, as the text of each part and the place
reached: each part ends at its first place from which the later parts fit too. -/
def splitFrom : List Pattern → Cursor → Option (List (List Char) × Cursor)
  | [], c => Option.some ([], c)
  | p :: ps, c =>
    (p.ends c).findSome? fun d => (splitFrom ps d).map fun (texts, e) => (c.upTo d :: texts, e)

/-- The preferred match that starts at a place. -/
def matchAt (parts : List Pattern) (c : Cursor) : Option Match :=
  (splitFrom parts c).map fun (texts, stop) => ⟨c, texts, stop⟩

/-- A part of a scanned text. -/
inductive Segment where
  /-- A character that no match covers. -/
  | plain (c : Char)
  /-- A match. -/
  | hit (m : Match)

namespace Segment

/-- The match of a segment. -/
def match? : Segment → Option Match
  | plain _ => none
  | hit m => Option.some m

end Segment

/-- Cuts the text after a cursor into characters and matches, from left to right; a match that
covers no character is passed over. Each step takes a character, so the length of the text is fuel
enough. -/
def scanFrom (parts : List Pattern) : Nat → Cursor → List Segment
  | 0, c => c.ahead.map .plain
  | fuel + 1, c =>
    match c.ahead with
    | [] => []
    | x :: xs =>
      match matchAt parts c with
      | Option.some m =>
        if m.stop.ahead.length < c.ahead.length then .hit m :: scanFrom parts fuel m.stop
        else .plain x :: scanFrom parts fuel ⟨x :: c.behind, xs⟩
      | none => .plain x :: scanFrom parts fuel ⟨x :: c.behind, xs⟩

/-- Cuts a text into characters and non-overlapping matches. -/
def scan (parts : List Pattern) (s : List Char) : List Segment :=
  scanFrom parts s.length (.start s)

/-- All non-overlapping matches in a text, from left to right. -/
def findAll (parts : List Pattern) (s : List Char) : List Match :=
  (scan parts s).filterMap Segment.match?

/-- The leftmost match that starts at or after a place. -/
def findFrom (parts : List Pattern) : List Char → List Char → Option Match
  | behind, [] => matchAt parts ⟨behind, []⟩
  | behind, x :: xs =>
    (matchAt parts ⟨behind, x :: xs⟩).orElse fun _ => findFrom parts (x :: behind) xs

/-- The leftmost match in a text. -/
def findFirst (parts : List Pattern) (s : List Char) : Option Match :=
  findFrom parts [] s

/-- Whether a shape occurs anywhere in a text. -/
def occurs (p : Pattern) (s : List Char) : Bool :=
  (findFirst [p] s).isSome

/-- Replaces every match by a text made from it. -/
def replaceAll (parts : List Pattern) (replacement : Match → List Char) (s : List Char) :
    List Char :=
  (scan parts s).flatMap fun
    | .plain c => [c]
    | .hit m => replacement m

end AskMetrics.Text
