import ImageTriage.Text.Numeral

/-!
# Timestamps

Times in an image are seconds since the start of 1970. They are shown in the Gregorian calendar.
Years are counted here from the first of March, so that the day that leap years add comes last: the
days of a year then do not depend on whether it is a leap year, and four hundred years always have
the same number of days.
-/

namespace ImageTriage.Report

/-- A day of the calendar. -/
structure Date where
  year : Nat
  month : Nat
  day : Nat
  deriving DecidableEq, Repr

namespace Date

/-- The number of days in four hundred years. -/
def eraDays : Nat := 146097

/-- The number of days from the first of March of year zero to the start of 1970. -/
def epoch : Nat := 719468

/-- The year of the four hundred, of a day of them. -/
def yearOfEra (day : Nat) : Nat := (day - day / 1460 + day / 36524 - day / 146096) / 365

/-- The date of a day counted from the start of 1970. -/
def ofDays (days : Nat) : Date :=
  let era := (days + epoch) / eraDays
  let day := (days + epoch) % eraDays
  let year := yearOfEra day
  let dayOfYear := day - (365 * year + year / 4 - year / 100)
  let month := (5 * dayOfYear + 2) / 153
  { year := 400 * era + year + (if month < 10 then 0 else 1)
    month := if month < 10 then month + 3 else month - 9
    day := dayOfYear - (153 * month + 2) / 5 + 1 }

example : ofDays 0 = ⟨1970, 1, 1⟩ := by decide
example : ofDays 11016 = ⟨2000, 2, 29⟩ := by decide
example : ofDays 11017 = ⟨2000, 3, 1⟩ := by decide
example : ofDays 49710 = ⟨2106, 2, 7⟩ := by decide

end Date

/-- A number with at least two digits. -/
def twoDigits (n : Nat) : String := Text.padLeft '0' 2 (toString n)

/-- The text of a timestamp; zero is no time. -/
def timestamp (seconds : UInt32) : String :=
  if seconds = 0 then "not set"
  else
    let s := seconds.toNat
    let date := Date.ofDays (s / 86400)
    Text.padLeft '0' 4 (toString date.year) ++ "-" ++ twoDigits date.month ++ "-"
      ++ twoDigits date.day ++ " " ++ twoDigits (s / 3600 % 24) ++ ":" ++ twoDigits (s / 60 % 60)
      ++ ":" ++ twoDigits (s % 60) ++ " UTC"

end ImageTriage.Report
