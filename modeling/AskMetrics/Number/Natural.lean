import AskMetrics.Number.Decimal

/-!
# Natural numbers in settings

A number in a setting or an address is written in decimal digits, with leading zeros as one likes,
and has to fit in a given number of bits.
-/
namespace AskMetrics

/-- The number that a text of digits is, if it is at most `most`. A plus sign may stand in front. -/
def readNat? (most : Nat) (s : List Char) : Option Nat :=
  let digits := match s with
    | '+' :: rest => rest
    | _ => s
  if digits.isEmpty || !digits.all Char.isDigit then none
  else
    let n := Double.ofDigits digits
    if n ≤ most then some n else none

/-- The largest number of 16 bits. -/
def max16 : Nat := twoTo 16 - 1

/-- The largest number of 32 bits. -/
def max32 : Nat := twoTo 32 - 1

/-- The largest number of 64 bits. -/
def max64 : Nat := twoTo 64 - 1

/-- The largest whole number of 64 bits with a sign. -/
def maxInt : Nat := twoTo 63 - 1

/-- The whole number of 64 bits that a text is, with an optional sign. -/
def readInt? (s : List Char) : Option Int :=
  match s with
  | '-' :: digits =>
    if digits.head? == some '+' then none
    else (readNat? (maxInt + 1) digits).map fun n => -(n : Int)
  | _ => (readNat? maxInt s).map Int.ofNat

/-- The whole number of 64 bits that is nearest to a number. -/
def clampInt (n : Int) : Int := max (-(maxInt + 1 : Nat)) (min n maxInt)

end AskMetrics
