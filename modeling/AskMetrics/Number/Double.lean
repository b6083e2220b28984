import AskMetrics.Number.Power

/-!
# Binary floating point numbers

Timestamps, samples and look-back arithmetic use IEEE 754 binary64. A `Double` is its 64 bits, and
every operation goes through exact fractions of natural numbers that are rounded once, to the
nearest representable number and on a tie to the one with even significand. Nothing depends on
the machine's own arithmetic.

The codes of the positive numbers are consecutive: the next larger number has the next code. So
rounding up into the next power of two needs no case of its own.
-/
namespace AskMetrics

/-- A binary64 number. -/
structure Double where
  bits : UInt64
  deriving DecidableEq, Repr

namespace Double

/-- The sign bit. -/
def negative (d : Double) : Bool :=
  twoTo 63 ≤ d.bits.toNat

/-- The exponent field, below 2048. -/
def field (d : Double) : Nat :=
  d.bits.toNat / twoTo 52 % twoTo 11

/-- The fraction field, below 2 ^ 52. -/
def fraction (d : Double) : Nat :=
  d.bits.toNat % twoTo 52

/-- Whether a number is neither infinite nor a NaN. -/
def isFinite (d : Double) : Bool :=
  d.field != 2047

/-- Whether a value is no number. -/
def isNaN (d : Double) : Bool :=
  d.field == 2047 && d.fraction != 0

/-- The number with a sign and a code, which is the exponent field followed by the fraction. -/
def ofCode (negative : Bool) (code : Nat) : Double :=
  ⟨.ofNat (code + if negative then twoTo 63 else 0)⟩

/-- The code of infinity, beyond those of all finite numbers. -/
def infinityCode : Nat := 2047 * twoTo 52

/-- The zero with a sign. -/
def zero (negative : Bool) : Double := ofCode negative 0

/-- The infinity with a sign. -/
def infinity (negative : Bool) : Double := ofCode negative infinityCode

/-- The value that is no number. -/
def nan : Double := ofCode false (infinityCode + twoTo 51)

/-- The significand of a finite number, in units of two to the power of `exponent`. -/
def significand (d : Double) : Nat :=
  if d.field = 0 then d.fraction else twoTo 52 + d.fraction

/-- The exponent of the unit in which the significand counts. -/
def exponent (d : Double) : Int :=
  (max d.field 1 : Int) - 1075

/-- `n` times two to the power of `e`, as a fraction. -/
def scaled (n : Nat) (e : Int) : Nat × Nat :=
  (n * twoTo e.toNat, twoTo (-e).toNat)

/-- The magnitude of a finite number as numerator and denominator. -/
def ratio? (d : Double) : Option (Nat × Nat) :=
  if d.isFinite then some (scaled d.significand d.exponent) else none

/-- A fraction rounded to a natural number, a tie going to the even one. -/
def roundEven (num den : Nat) : Nat :=
  let q := num / den
  let r := num % den
  if 2 * r < den then q else if den < 2 * r then q + 1 else q + q % 2

/-- The largest `e` with 2 ^ e at most the fraction, both parts of it being positive. -/
def floorLog2 (num den : Nat) : Int :=
  let e : Int := (num.log2 : Int) - (den.log2 : Int)
  if den * twoTo e.toNat ≤ num * twoTo (-e).toNat then e else e - 1

/-- The number nearest to a fraction with positive denominator, of two equally near ones that with
even significand, and the infinity beyond the largest. -/
def ofRatio (negative : Bool) (num den : Nat) : Double :=
  if num = 0 then zero negative
  else
    let e := max (-1074) (floorLog2 num den - 52)
    let q := roundEven (num * twoTo (-e).toNat) (den * twoTo e.toNat)
    ofCode negative (min infinityCode ((e + 1074).toNat * twoTo 52 + q))

/-- The number nearest to a natural number. -/
def ofNat (n : Nat) : Double := ofRatio false n 1

/-- The number with the other sign. -/
def neg (d : Double) : Double :=
  ⟨.ofNat ((d.bits.toNat + twoTo 63) % twoTo 64)⟩

/-- The product, rounded. -/
def mul (a b : Double) : Double :=
  let sign := a.negative != b.negative
  match a.ratio?, b.ratio? with
  | some (n, m), some (p, q) => ofRatio sign (n * p) (m * q)
  | _, _ =>
    if a.isNaN || b.isNaN || a.significand == 0 || b.significand == 0 then nan
    else infinity sign

/-- The quotient, rounded. -/
def div (a b : Double) : Double :=
  let sign := a.negative != b.negative
  match a.ratio?, b.ratio? with
  | some (n, m), some (p, q) =>
    if p = 0 then (if n = 0 then nan else infinity sign) else ofRatio sign (n * q) (m * p)
  | some _, none => if b.isNaN then nan else zero sign
  | none, some _ => if a.isNaN then nan else infinity sign
  | none, none => nan

/-- The natural number nearest to a finite number that is not negative, a half going up. -/
def roundNat? (d : Double) : Option Nat :=
  if d.negative then none
  else d.ratio?.map fun (num, den) => (2 * num + den) / (2 * den)

end Double

end AskMetrics
