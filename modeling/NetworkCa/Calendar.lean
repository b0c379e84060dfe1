import NetworkCa.Text.Align

namespace NetworkCa

structure Date where
  year : Int
  month : Nat
  day : Nat
  deriving Repr, DecidableEq

namespace Date

def isLeap (year : Int) : Bool := year % 4 = 0 && (year % 100 ≠ 0 || year % 400 = 0)

def daysInMonth (year : Int) (month : Nat) : Nat :=
  match month with
  | 2 => if isLeap year then 29 else 28
  | 4 | 6 | 9 | 11 => 30
  | _ => 31

def isValid (d : Date) : Bool :=
  1 ≤ d.month && d.month ≤ 12 && 1 ≤ d.day && d.day ≤ daysInMonth d.year d.month

/-- Years have four digits. -/
def isInCalendar (d : Date) : Bool := d.year.natAbs ≤ 9999

def cycle : Int := 146097

def epoch : Int := 719468

/-- The days from 1 January 1970. A year is counted from March, so that a leap day ends it. -/
def unixDay (d : Date) : Int :=
  let year := if d.month ≤ 2 then d.year - 1 else d.year
  let era := year / 400
  let yearOfEra := year % 400
  let month : Int := if d.month > 2 then d.month - 3 else d.month + 9
  let dayOfYear := (153 * month + 2) / 5 + d.day - 1
  let dayOfEra := yearOfEra * 365 + yearOfEra / 4 - yearOfEra / 100 + dayOfYear
  era * cycle + dayOfEra - epoch

def ofUnixDay (n : Int) : Date :=
  let z := n + epoch
  let era := z / cycle
  let dayOfEra := z % cycle
  let yearOfEra := (dayOfEra - dayOfEra / 1460 + dayOfEra / 36524 - dayOfEra / 146096) / 365
  let dayOfYear := dayOfEra - (365 * yearOfEra + yearOfEra / 4 - yearOfEra / 100)
  let month := (5 * dayOfYear + 2) / 153
  let day := dayOfYear - (153 * month + 2) / 5 + 1
  let year := yearOfEra + era * 400
  { year := if month < 10 then year else year + 1
    month := (if month < 10 then month + 3 else month - 9).toNat
    day := day.toNat }

end Date

/-- Seconds from the start of 1 January 1970 in UTC. -/
abbrev Instant := Int

namespace Instant

def daySeconds : Int := 86400

def ofDate (d : Date) (hour minute second : Nat) : Instant :=
  d.unixDay * daySeconds + hour * 3600 + minute * 60 + second

def day (t : Instant) : Int := t / daySeconds

def date (t : Instant) : Date := .ofUnixDay (day t)

def secondOfDay (t : Instant) : Nat := (t % daySeconds).toNat

/-- The text `2024-01-31T00:00:00+00:00`. -/
def print (t : Instant) : String :=
  let d := date t
  let s := secondOfDay t
  let two := Text.digits 2
  Text.digits 4 d.year.toNat ++ "-" ++ two d.month ++ "-" ++ two d.day ++ "T" ++
    two (s / 3600) ++ ":" ++ two (s / 60 % 60) ++ ":" ++ two (s % 60) ++ "+00:00"

end Instant

end NetworkCa
