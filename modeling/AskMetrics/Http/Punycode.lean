/-!
# Punycode

A label of a host name that holds letters outside ASCII is written in ASCII: first its ASCII
letters, then a row of digits in base 36 that says which other letters stand where. The letters go
in by ascending code point. Each is told by the number of steps from the one before, where a step
goes on to the next place in the label, and past the last place to the next code point. How many
digits such a number is expected to take adapts to the numbers so far.
-/
namespace AskMetrics.Http.Punycode

/-- A digit in base 36: the letters, then the decimal digits. -/
def digit (d : Nat) : Char :=
  if d < 26 then .ofNat ('a'.toNat + d) else .ofNat ('0'.toNat + (d - 26))

/-- From which value on a digit is followed by another. Places are counted by 36s. -/
def threshold (bias place : Nat) : Nat := max 1 (min 26 (place - bias))

theorem one_le_threshold (bias place : Nat) : 1 ≤ threshold bias place :=
  Nat.le_max_left ..

/-- A number in digits, from a place on, the lowest digit first. -/
def digits (bias place n : Nat) : List Char :=
  let t := threshold bias place
  if n < t then [digit n]
  else digit (t + (n - t) % (36 - t)) :: digits bias (place + 36) ((n - t) / (36 - t))
termination_by n
decreasing_by
  have := one_le_threshold bias place
  exact Nat.lt_of_le_of_lt (Nat.div_le_self ..) (by omega)

/-- Scales a number down, and counts by 36s how often. -/
def scaleDown (n count : Nat) : Nat × Nat :=
  if 455 < n then scaleDown (n / 35) (count + 36) else (n, count)
termination_by n
decreasing_by exact Nat.div_lt_self (by omega) (by decide)

/-- The bias after a number of steps that made a label `size` letters long. The first number is
damped, as it tells mostly from where the code points start. -/
def adapt (steps size : Nat) (isFirst : Bool) : Nat :=
  let n := if isFirst then steps / 700 else steps / 2
  let (n, count) := scaleDown (n + n / size) 0
  count + 36 * n / (n + 38)

/-- What is written so far. -/
structure Progress where
  written : List Char
  /-- How many steps there have been since the last letter. -/
  steps : Nat
  bias : Nat
  /-- How many letters are in the label. -/
  size : Nat

/-- Passes a letter of the label while letters with a code point go in; `basic` counts the ASCII
letters. -/
def Progress.pass (basic point : Nat) (p : Progress) (c : Char) : Progress :=
  if c.toNat < point then { p with steps := p.steps + 1 }
  else if c.toNat = point then
    ⟨p.written ++ digits p.bias 36 p.steps, 0, adapt p.steps (p.size + 1) (p.size == basic),
      p.size + 1⟩
  else p

/-- Puts the letters in by code point; `next` is the code point at which the steps stand. -/
def Progress.run (basic : Nat) (label : List Char) : Nat → List Nat → Progress → Progress
  | _, [], p => p
  | next, point :: points, p =>
    let p := { p with steps := p.steps + (point - next) * (p.size + 1) }
    let p := label.foldl (pass basic point) p
    run basic label (point + 1) points { p with steps := p.steps + 1 }

/-- Whether a character is one of ASCII. -/
def isBasic (c : Char) : Bool := c.toNat < 0x80

/-- The letters of a label in ASCII. -/
def encode (label : List Char) : List Char :=
  let basic := label.filter isBasic
  let points := ((label.filter (!isBasic ·)).map Char.toNat).mergeSort.eraseDups
  let start := if basic.isEmpty then [] else basic ++ ['-']
  (Progress.run basic.length label 0x80 points ⟨start, 0, 72, basic.length⟩).written

/-- A label as it stands in a host name. -/
def label (s : List Char) : List Char :=
  if s.all isBasic then s else "xn--".toList ++ encode s

end AskMetrics.Http.Punycode
