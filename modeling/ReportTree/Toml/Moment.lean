import ReportTree.Text.Numeral

/-!
# Dates and times

Days of the calendar, times of a day and offsets from universal time, and how they are shown in a
message.
-/

namespace ReportTree.Toml

/-- A day. -/
structure Date where
  year : Nat
  month : Nat
  day : Nat
  deriving DecidableEq

/-- A time of a day. -/
structure Time where
  hour : Nat
  minute : Nat
  second : Nat
  microsecond : Nat
  deriving DecidableEq

/-- How far local time is from universal time. The `mark` in front of an offset is a sign; a bar
stands for a plus. -/
inductive Zone where
  | universal
  | offset (mark : CodePoint) (hours minutes : Nat)
  deriving DecidableEq

namespace Date

/-- Every fourth year is a leap year, of the full centuries only every fourth. -/
def isLeapYear (year : Nat) : Bool :=
  year % 4 == 0 && (year % 100 != 0 || year % 400 == 0)

/-- The days of a month. -/
def daysIn (year month : Nat) : Nat :=
  if month = 2 then if isLeapYear year then 29 else 28
  else if month = 4 ∨ month = 6 ∨ month = 9 ∨ month = 11 then 30
  else 31

/-- The calendar has this day. It begins with the year 1. -/
def isValid (d : Date) : Bool :=
  1 ≤ d.year && 1 ≤ d.month && d.month ≤ 12 && 1 ≤ d.day && d.day ≤ daysIn d.year d.month

/-- The numbers that a day is shown by. -/
def numbers (d : Date) : List Nat := [d.year, d.month, d.day]

end Date

namespace Time

/-- The day has this time; there are no leap seconds. -/
def isValid (t : Time) : Bool := t.hour < 24 && t.minute < 60 && t.second < 60

/-- The numbers that a time is shown by: zero seconds and microseconds are left out at the end. -/
def numbers (t : Time) : List Nat :=
  if t.microsecond ≠ 0 then [t.hour, t.minute, t.second, t.microsecond]
  else if t.second ≠ 0 then [t.hour, t.minute, t.second]
  else [t.hour, t.minute]

end Time

/-- The seconds of a day. -/
def secondsOfDay : Nat := 86400

namespace Zone

/-- The marks in front of an offset. -/
def marks : Text := "+-|"

/-- The name of a zone. -/
def name : Zone → Text
  | universal => "UTC"
  | offset mark hours minutes =>
    let pair (n : Nat) : Text := Numeral.ofNat (n / 10) ++ Numeral.ofNat (n % 10)
    mark :: pair hours ++ ":" ++ pair minutes

/-- The offset as a span of days and seconds; only the days are ever negative. -/
def span : Zone → Text
  | universal => "0"
  | offset mark hours minutes =>
    let seconds := 3600 * hours + 60 * minutes
    if seconds = 0 then "0"
    else if mark = '-' then "days=-1, seconds=" ++ Numeral.ofNat (secondsOfDay - seconds)
    else "seconds=" ++ Numeral.ofNat seconds

/-- The zone in a message. -/
def shown (z : Zone) : Text :=
  "datetime.timezone(datetime.timedelta(" ++ z.span ++ "), '" ++ z.name ++ "')"

end Zone

/-- Numbers with commas between them. -/
def listing (ns : List Nat) : Text := Text.join ", " (ns.map Numeral.ofNat)

/-- A day in a message. -/
def Date.shown (d : Date) : Text := "datetime.date(" ++ listing d.numbers ++ ")"

/-- A time in a message. -/
def Time.shown (t : Time) : Text := "datetime.time(" ++ listing t.numbers ++ ")"

/-- A time of a day in a message, with the zone if there is one. -/
def Date.shownAt (d : Date) (t : Time) (zone : Option Zone) : Text :=
  let zoneText : Text :=
    match zone with
    | none => []
    | some z => ", tzinfo=" ++ z.shown
  "datetime.datetime(" ++ listing (d.numbers ++ t.numbers) ++ zoneText ++ ")"

end ReportTree.Toml
