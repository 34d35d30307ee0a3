import FrameGraph.Toml.Reader

/-!
# Dates and times

A date of the calendar, a time of the day, or both, and then perhaps with the distance from
universal time.
-/

set_option autoImplicit false

namespace FrameGraph.Toml

/-- Reads a number of `count` digits within bounds. -/
def fixedNumber (count least greatest : Nat) : Reader Nat := fun text =>
  let digits := text.take count
  let n := ofDigits 10 digits
  if digits.length = count && digits.all Char.isDigit && least ≤ n && n ≤ greatest then
    some (n, text.drop count)
  else none

/-- Holds if the year has a 29th of February. -/
def isLeapYear (year : Nat) : Bool := year % 4 = 0 && (year % 100 ≠ 0 || year % 400 = 0)

/-- The number of days of a month. -/
def daysInMonth (year month : Nat) : Nat :=
  if month = 2 then if isLeapYear year then 29 else 28
  else if month ∈ [4, 6, 9, 11] then 30
  else 31

/-- Reads a date of the calendar. -/
def date (text : List Char) : Option (List Char) := do
  let (year, text) ← fixedNumber 4 0 9999 text
  let (_, text) ← word ['-'] text
  let (month, text) ← fixedNumber 2 1 12 text
  let (_, text) ← word ['-'] text
  let (_, text) ← fixedNumber 2 1 (daysInMonth year month) text
  return text

/-- The text behind a fraction of a second, if there is one. -/
def skipSecondFraction (text : List Char) : List Char :=
  match text with
  | '.' :: c :: rest => if c.isDigit then rest.dropWhile Char.isDigit else text
  | _ => text

/-- Reads hours and minutes. -/
def hoursAndMinutes (text : List Char) : Option (List Char) := do
  let (_, text) ← fixedNumber 2 0 23 text
  let (_, text) ← word [':'] text
  let (_, text) ← fixedNumber 2 0 59 text
  return text

/-- Reads a time of the day; a minute may have a leap second. -/
def timeOfDay (text : List Char) : Option (List Char) := do
  let text ← hoursAndMinutes text
  let (_, text) ← word [':'] text
  let (_, text) ← fixedNumber 2 0 60 text
  return skipSecondFraction text

/-- The text behind the distance from universal time, if it is given. -/
def skipOffset (text : List Char) : List Char :=
  match text with
  | 'Z' :: rest | 'z' :: rest => rest
  | '+' :: rest | '-' :: rest => (hoursAndMinutes rest).getD text
  | _ => text

/-- The text behind a time that belongs to a date, if there is one. -/
def skipTime (text : List Char) : List Char :=
  match text with
  | c :: rest =>
      if c = 'T' || c = 't' || c = ' ' then ((timeOfDay rest).map skipOffset).getD text else text
  | [] => []

/-- Reads a date, a time or both, and answers its text. -/
def moment : Reader String := fun text =>
  ((date text).map skipTime <|> timeOfDay text).map fun rest => (consumed text rest, rest)

end FrameGraph.Toml
