import AskMetrics.Json.Value

/-!
# Timestamps

A time is written as date, time of day and offset, in the calendar in which every fourth year is a
leap year, except for full centuries that 400 does not divide.
-/
namespace AskMetrics.Http

/-- Year, month and day of a day counted from 1 January 1970. The year is taken to start in
March, so that the leap day comes last, and 400 years to have 146097 days. -/
def civilDate (days : Int) : Int × Nat × Nat :=
  let shifted := days + 719468
  let era := shifted.fdiv 146097
  let dayOfEra := (shifted - era * 146097).toNat
  let yearOfEra := (dayOfEra - dayOfEra / 1460 + dayOfEra / 36524 - dayOfEra / 146096) / 365
  let dayOfYear := dayOfEra - (365 * yearOfEra + yearOfEra / 4 - yearOfEra / 100)
  let monthFromMarch := (5 * dayOfYear + 2) / 153
  let day := dayOfYear - (153 * monthFromMarch + 2) / 5 + 1
  let month := if monthFromMarch < 10 then monthFromMarch + 3 else monthFromMarch - 9
  (yearOfEra + era * 400 + (if month ≤ 2 then 1 else 0), month, day)

/-- A number with zeros in front up to a width. -/
def padded (width n : Nat) : String :=
  let digits := Nat.toDigits 10 n
  .ofList (List.replicate (width - digits.length) '0' ++ digits)

/-- The text of a time in milliseconds since 1970, at offset zero. -/
def timestamp (ms : Int) : String :=
  let day := ms.fdiv 86400000
  let rest := (ms - day * 86400000).toNat
  let (year, month, date) := civilDate day
  let fraction := if rest % 1000 = 0 then "" else "." ++ padded 3 (rest % 1000)
  s!"{padded 4 year.toNat}-{padded 2 month}-{padded 2 date}T" ++
    s!"{padded 2 (rest / 3600000)}:{padded 2 (rest / 60000 % 60)}:{padded 2 (rest / 1000 % 60)}" ++
    fraction ++ "+00:00"

end AskMetrics.Http
