import NetworkCa.Calendar
import NetworkCa.Der.Reader

namespace NetworkCa.Der

def digit? (b : UInt8) : Option Nat := if 48 ≤ b && b ≤ 57 then some (b.toNat - 48) else none

def twoDigits : Reader Nat := do
  let a ← digit? (← Reader.byte)
  let b ← digit? (← Reader.byte)
  return 10 * a + b

def zulu : UInt8 := 90

/-- The seconds by which a clock is ahead of UTC, after a sign. Minutes count to the side of the
    hours, and up where there are no hours. -/
def offset (ahead : Bool) : Reader Int := do
  let hours : Int ← twoDigits
  let minutes : Int ← twoDigits
  if hours > 25 || minutes > 59 then failure
  if ahead || hours = 0 then return hours * 3600 + minutes * 60
  else return -(hours * 3600 + minutes * 60)

def zone : Reader Int := do
  let ahead ← match ← Reader.byte with
    | 90 => pure 0
    | 43 => offset true
    | 45 => offset false
    | _ => failure
  if ← Reader.atEnd then return ahead else failure

/-- Up to three digits behind a point, which count for nothing in whole seconds, and `Z`. -/
def fractionAndZulu : Reader Int := fun bytes =>
  match bytes with
  | 46 :: rest =>
    let digits := rest.takeWhile fun b => (digit? b).isSome
    if digits.length ≤ 3 && rest.drop digits.length = [zulu] then some (0, []) else none
  | rest => if rest = [zulu] then some (0, []) else none

def restOfTime (year : Int) (ending : Reader Int) : Reader Instant := do
  let month ← twoDigits
  let day ← twoDigits
  let hour ← twoDigits
  let minute ← twoDigits
  let second ← if (← get) = [zulu] then pure 0 else twoDigits
  let ahead ← ending
  let date : Date := ⟨year, month, day⟩
  if date.isValid && hour ≤ 23 && minute ≤ 59 && second ≤ 59 then
    return Instant.ofDate date hour minute second - ahead
  else failure

def utcTime : Reader Instant := do
  let year ← twoDigits
  restOfTime (if year ≥ 50 then 1900 + year else 2000 + year) zone

def generalizedTime : Reader Instant := do
  let century ← twoDigits
  let year ← twoDigits
  restOfTime (100 * century + year) fractionAndZulu

def time : Reader Instant := do
  let e ← Reader.element
  if Tag.utcTime.accepts e.tag then (readFront utcTime e.content : Option Instant)
  else if Tag.generalizedTime.accepts e.tag then
    (readFront generalizedTime e.content : Option Instant)
  else failure

def midnightText (yearDigits : Nat) (d : Date) : Bytes :=
  let two := Text.digits 2
  let year := Text.digits yearDigits (d.year.toNat % Nat.pow 10 yearDigits)
  Text.Utf8.encode (year ++ two d.month ++ two d.day ++ "000000Z")

def midnight (d : Date) : Bytes :=
  if 1950 ≤ d.year ∧ d.year < 2050 then write .utcTime (midnightText 2 d)
  else write .generalizedTime (midnightText 4 d)

end NetworkCa.Der
