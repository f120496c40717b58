import PycListing.Decimal.Written

/-! # Dates and durations

The date of a time in seconds since 1970, in UTC, and the text of a duration.
-/

namespace PycListing.Time

structure Date where
  year : Nat
  month : Nat
  day : Nat
  deriving DecidableEq, Repr

/-- The date of a day numbered from the first of March of the year 0. Years are counted from
March, so that a leap day ends its year; 400 of them have 146097 days. -/
def Date.ofDayNumber (number : Nat) : Date :=
  let cycle := number / 146097
  let inCycle := number % 146097
  let yearInCycle :=
    (inCycle - inCycle / 1460 + inCycle / 36524 - inCycle / 146096) / 365
  let inYear := inCycle - (365 * yearInCycle + yearInCycle / 4 - yearInCycle / 100)
  let monthFromMarch := (5 * inYear + 2) / 153
  let month := if monthFromMarch < 10 then monthFromMarch + 3 else monthFromMarch - 9
  { year := 400 * cycle + yearInCycle + (if month ≤ 2 then 1 else 0)
    month := month
    day := inYear - (153 * monthFromMarch + 2) / 5 + 1 }

/-- The number, counted from the first of March of the year 0, of the first of January 1970. -/
def epochDay : Nat :=
  719468

/-- The date and time of day of a time in seconds since 1970, in UTC. -/
def dateText (seconds : Nat) : String :=
  let date := Date.ofDayNumber (epochDay + seconds / 86400)
  let inDay := seconds % 86400
  let two := Text.zeroPadded 2
  Text.zeroPadded 4 date.year ++ "-" ++ two date.month ++ "-" ++ two date.day ++ " " ++
    two (inDay / 3600) ++ ":" ++ two (inDay / 60 % 60) ++ ":" ++ two (inDay % 60)

/-- The text of a duration: whole milliseconds below a second, else seconds to three places, and
from a minute on minutes and seconds to one place. Seconds are counted in doubles. -/
def durationText (seconds nanoseconds : Nat) : String :=
  let seconds := seconds + nanoseconds / 1000000000
  let nanoseconds := nanoseconds % 1000000000
  let milliseconds := 1000 * seconds + nanoseconds / 1000000
  if milliseconds < 1000 then toString milliseconds ++ " ms"
  else
    let total := seconds.toUInt64.toFloat + nanoseconds.toUInt64.toFloat / 1e9
    if total < 60 then Decimal.fixedDouble 3 total.toBits ++ " s"
    else
      let minutes := (total / 60).floor
      let rest := total - minutes * 60
      Decimal.fixedDouble 0 minutes.toBits ++ " min " ++ Decimal.fixedDouble 1 rest.toBits ++ " s"

end PycListing.Time
