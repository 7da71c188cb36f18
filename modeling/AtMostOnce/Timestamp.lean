import AtMostOnce.Clock

/-! Dates written as RFC 3339 lays down. -/
namespace AtMostOnce.Timestamp

/-- A day of the calendar. -/
structure Day where
  year : Nat
  month : Nat
  day : Nat
deriving DecidableEq

/-- The day so many days after the beginning of 1970. Years are counted from March on, so that the
day of a leap year comes last, in eras of 400 years. -/
def Day.ofNumber (n : Nat) : Day :=
  let days := n + 719468
  let era := days / 146097
  let dayOfEra := days % 146097
  let yearOfEra := (dayOfEra - dayOfEra / 1460 + dayOfEra / 36524 - dayOfEra / 146096) / 365
  let dayOfYear := dayOfEra - (365 * yearOfEra + yearOfEra / 4 - yearOfEra / 100)
  let monthFromMarch := (5 * dayOfYear + 2) / 153
  let month := if monthFromMarch < 10 then monthFromMarch + 3 else monthFromMarch - 9
  { year := 400 * era + yearOfEra + (if month ≤ 2 then 1 else 0)
    month := month
    day := dayOfYear - (153 * monthFromMarch + 2) / 5 + 1 }

/-- A numeral with leading zeros up to a width. -/
def padded (width n : Nat) : String := String.ofList ((Nat.toDigits 10 n).leftpad width '0')

/-- Years of more than four digits have a sign. -/
def yearText (year : Nat) : String := if year ≤ 9999 then padded 4 year else "+" ++ toString year

/-- No fraction, or as many groups of three digits as it takes. -/
def fractionText (nanoseconds : Nat) : String :=
  if nanoseconds = 0 then ""
  else if nanoseconds % 1000000 = 0 then "." ++ padded 3 (nanoseconds / 1000000)
  else if nanoseconds % 1000 = 0 then "." ++ padded 6 (nanoseconds / 1000)
  else "." ++ padded 9 nanoseconds

/-- The text of a date in universal time, given in nanoseconds from the beginning of 1970, without
the offset. -/
def text (date : Nat) : String :=
  let seconds := date / second
  let day := Day.ofNumber (seconds / 86400)
  let time := seconds % 86400
  s!"{yearText day.year}-{padded 2 day.month}-{padded 2 day.day}T" ++
    s!"{padded 2 (time / 3600)}:{padded 2 (time / 60 % 60)}:{padded 2 (time % 60)}" ++
    fractionText (date % second)

/-- The offset of universal time, as one letter. -/
def zulu (date : Nat) : String := text date ++ "Z"

/-- The offset of universal time, in hours and minutes. -/
def offset (date : Nat) : String := text date ++ "+00:00"

end AtMostOnce.Timestamp
