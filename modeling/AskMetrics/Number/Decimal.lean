import AskMetrics.Number.Double

/-!
# Decimal text of floating point numbers

Reading takes a decimal text to the nearest number. Writing goes the other way with as few digits
as read back as the same number, and of those the nearest.

Between a number and its two neighbours lies the interval of reals that round to it. The grids of
multiples of a power of ten are tried from coarse to fine; on each only the two points around the
number can lie in the interval if any does. So the first grid with a hit has the fewest digits.
-/
namespace AskMetrics.Double

/-! ## Reading -/

/-- The value of decimal digits. -/
def ofDigits (s : List Char) : Nat :=
  s.foldl (fun n c => n * 10 + (c.toNat - '0'.toNat)) 0

/-- The number nearest to `n` times ten to the power of `e`. Exponents far outside the range of
the format are answered without computing the power. -/
def ofScientific (negative : Bool) (n : Nat) (e : Int) : Double :=
  if n = 0 then zero negative
  else
    let magnitude := e + (n.log2 * 3 / 10 : Nat)
    if magnitude > 400 then infinity negative
    else if magnitude < -800 - (n.log2 : Int) then zero negative
    else ofRatio negative (n * tenTo e.toNat) (tenTo (-e).toNat)

/-- An exponent: an optional sign and at least one digit, and nothing else. -/
def readExponent? (s : List Char) : Option Int :=
  let (negative, digits) := match s with
    | '-' :: ds => (true, ds)
    | '+' :: ds => (false, ds)
    | ds => (false, ds)
  if digits.isEmpty || !digits.all Char.isDigit then none
  else
    let n : Int := ofDigits digits
    some (if negative then -n else n)

/-- A number without sign: digits with an optional point among or around them, at least one digit,
and an optional exponent. -/
def readUnsigned? (negative : Bool) (s : List Char) : Option Double :=
  let whole := s.takeWhile Char.isDigit
  let afterWhole := s.dropWhile Char.isDigit
  let (fraction, rest) := match afterWhole with
    | '.' :: cs => (cs.takeWhile Char.isDigit, cs.dropWhile Char.isDigit)
    | cs => ([], cs)
  if whole.isEmpty && fraction.isEmpty then none
  else
    let exponent? : Option Int := match rest with
      | [] => some 0
      | c :: cs => if c == 'e' || c == 'E' then readExponent? cs else none
    let n := ofDigits (whole ++ fraction)
    exponent?.map fun e => ofScientific negative n (e - fraction.length)

/-- The number in a text: an optional sign, and a decimal number, `inf`, `infinity` or `nan`. The
words may be in any letter case. -/
def read? (s : List Char) : Option Double :=
  let (negative, body) := match s with
    | '-' :: cs => (true, cs)
    | '+' :: cs => (false, cs)
    | cs => (false, cs)
  let word := body.map Char.toLower
  if word == "inf".toList || word == "infinity".toList then some (infinity negative)
  else if word == "nan".toList then some (if negative then neg nan else nan)
  else readUnsigned? negative body

/-! ## Writing -/

/-- The interval of fractions that round to a positive finite number, as the numerators of its
lower end, of the number and of its upper end over one denominator. -/
def interval (d : Double) : Nat × Nat × Nat × Nat :=
  let m := d.significand
  let below := if d.fraction = 0 && 1 < d.field then 1 else 2
  let (unit, den) := scaled 1 (d.exponent - 2)
  ((4 * m - below) * unit, 4 * m * unit, (4 * m + 2) * unit, den)

/-- The multiple of ten to the power of `e` that rounds to a positive finite number, if there is
one: of the two around the number the nearer, and on a tie the even one. -/
def onGrid? (d : Double) (e : Int) : Option Nat :=
  let (low, mid, high, den) := interval d
  let step := den * tenTo e.toNat
  let scale := tenTo (-e).toNat
  let fits (k : Nat) : Bool :=
    if d.significand % 2 = 0 then low * scale ≤ k * step && k * step ≤ high * scale
    else low * scale < k * step && k * step < high * scale
  let k := mid * scale / step
  let doubled := 2 * (mid * scale % step)
  let upFirst := step < doubled || (step == doubled && k % 2 == 1)
  let (near, far) := if upFirst then (k + 1, k) else (k, k + 1)
  if near != 0 && fits near then some near else if far != 0 && fits far then some far else none

/-- The fewest digits that read back as a finite number, as a natural number and the power of ten
it is multiplied by. The grids reach from the largest number down to the smallest. -/
def shortest (d : Double) : Nat × Int :=
  if d.significand = 0 then (0, 0)
  else
    ((List.range 640).findSome? fun (i : Nat) =>
      let e : Int := 309 - (i : Int)
      (onGrid? d e).map fun k => (k, e)).getD (0, 0)

/-- The decimal digits of a natural number. -/
def digitsOf (n : Nat) : List Char :=
  (toString n).toList

/-- The sign of a number as text. -/
def signText (d : Double) : List Char :=
  if d.negative then ['-'] else []

/-- Digits times ten to the power of `e`, written out with zeros and a point as needed. -/
def positional (digits : List Char) (e : Int) : List Char :=
  if 0 ≤ e then digits ++ List.replicate e.toNat '0'
  else
    let places := (-e).toNat
    let padded := List.replicate (places + 1 - digits.length) '0' ++ digits
    padded.take (padded.length - places) ++ '.' :: padded.drop (padded.length - places)

/-- A number written without exponent, and without a point when it is whole. -/
def plain (d : Double) : String :=
  if d.isNaN then "NaN"
  else if !d.isFinite then .ofList (signText d ++ "inf".toList)
  else
    let (k, e) := shortest d
    .ofList (signText d ++ positional (digitsOf k) e)

/-- A finite number written as in JSON: a whole number keeps one zero after the point, and an
exponent is used from 10 ^ 16 upwards and below 10 ^ (-5). -/
def literal (d : Double) : String :=
  let (k, e) := shortest d
  let digits := digitsOf k
  let point : Int := digits.length + e
  let body :=
    if k = 0 then "0.0".toList
    else if 0 ≤ e && point ≤ 16 then positional digits e ++ ".0".toList
    else if e < 0 && -5 < point && point ≤ 16 then positional digits e
    else
      let mantissa := match digits with
        | first :: second :: rest => first :: '.' :: second :: rest
        | short => short
      mantissa ++ 'e' :: (toString (point - 1)).toList
  .ofList (signText d ++ body)

end AskMetrics.Double
