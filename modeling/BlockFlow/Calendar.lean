import BlockFlow.Text.Digits

/-! Civil time, counted in seconds or microseconds since the start of 1970. -/

namespace BlockFlow

structure DateTime where
  year : Int
  month : Nat
  day : Nat
  hour : Nat
  minute : Nat
  second : Nat
  microsecond : Nat
deriving DecidableEq

namespace DateTime

/-- Days of four centuries, after which the calendar repeats. -/
def eraDays : Int := 146097

/-- Years are counted from March, so that a leap day ends its year: the day of the year `0000` on
which 1970 starts. -/
def epochDay : Int := 719468

/-- The date of a day counted from the start of 1970, at a second of that day. -/
def ofDay (day : Int) (second : Nat) : DateTime :=
  let shifted := day + epochDay
  let era := shifted.fdiv eraDays
  let dayOfEra := (shifted.fmod eraDays).toNat
  let yearOfEra := (dayOfEra - dayOfEra / 1460 + dayOfEra / 36524 - dayOfEra / 146096) / 365
  let dayOfYear := dayOfEra - (365 * yearOfEra + yearOfEra / 4 - yearOfEra / 100)
  let monthFromMarch := (5 * dayOfYear + 2) / 153
  let month := if monthFromMarch < 10 then monthFromMarch + 3 else monthFromMarch - 9
  { year := yearOfEra + era * 400 + if month ≤ 2 then 1 else 0
    month
    day := dayOfYear - (153 * monthFromMarch + 2) / 5 + 1
    hour := second / 3600
    minute := second / 60 % 60
    second := second % 60
    microsecond := 0 }

def ofSeconds (seconds : Int) : DateTime :=
  ofDay (seconds.fdiv 86400) (seconds.fmod 86400).toNat

def ofMicroseconds (microseconds : Int) : DateTime :=
  { ofSeconds (microseconds.fdiv 1000000) with microsecond := (microseconds.fmod 1000000).toNat }

/-- Date and time of day, with `separator` between them. -/
def text (separator : String) (t : DateTime) : String :=
  toString t.year ++ "-" ++ decimal 2 t.month ++ "-" ++ decimal 2 t.day ++ separator ++
    decimal 2 t.hour ++ ":" ++ decimal 2 t.minute ++ ":" ++ decimal 2 t.second

/-- The time in a log, to the second. -/
def logText (t : DateTime) : String := t.text " "

/-- The time in a report, in UTC. A full second is shown without its microseconds. -/
def reportText (t : DateTime) : String :=
  t.text "T" ++ (if t.microsecond = 0 then "" else "." ++ decimal 6 t.microsecond) ++ "+00:00"

end DateTime

end BlockFlow
