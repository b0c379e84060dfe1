import NetworkCa.Json.Reader
import NetworkCa.Decimal.Shortest

namespace NetworkCa.Json.Reader

def isDigit (c : Char) : Bool := '0' ≤ c && c ≤ '9'

def digitValue (c : Char) : Nat := c.toNat - 48

def peekDigit : Reader (Option Nat) := do
  match ← peek with
  | some c => return if isDigit c then some (digitValue c) else none
  | none => return none

def maxWord : Nat := 18446744073709551615

def maxExponent : Nat := 2147483647

def tenPower (k : Nat) : Float := Float.ofScientific 1 false k

/-- `f · 10 ^ e`, in one step where the power is a double, and else after steps of 308 down. -/
def scaleDown (f : Float) (e : Nat) : Nat → Float
  | 0 => f
  | fuel + 1 =>
    if e ≤ 308 then f / tenPower e
    else if f == 0.0 then f
    else scaleDown (f / tenPower 308) (e - 308) fuel

def magnitude (significand : Nat) (exponent : Int) : Reader Float := do
  let f := Float.ofNat significand
  if 0 ≤ exponent then
    if exponent ≤ 308 then
      let g := f * tenPower exponent.toNat
      if g.isInf then failHere .numberRange else return g
    else if f == 0.0 then return f
    else failHere .numberRange
  else return scaleDown f (-exponent).toNat 5

def decimal (positive : Bool) (significand : Nat) (exponent : Int) : Reader Found := do
  let f ← magnitude significand exponent
  return .decimal (Decimal.ofFloat (if positive then f else -f))

def skipDigits : Nat → Reader Unit
  | 0 => return ()
  | fuel + 1 => do
    match ← peekDigit with
    | some _ => drop; skipDigits fuel
    | none => return ()

/-- The digits of an exponent; none if they exceed every exponent. -/
def exponentDigits (e : Nat) : Nat → Reader (Option Nat)
  | 0 => return some e
  | fuel + 1 => do
    match ← peekDigit with
    | some d =>
      drop
      if 10 * e + d > maxExponent then return none else exponentDigits (10 * e + d) fuel
    | none => return some e

def exponentPart (positive : Bool) (significand : Nat) (start : Int) : Reader Found := do
  drop
  let up ← match ← peek with
    | some '+' => drop; pure true
    | some '-' => drop; pure false
    | _ => pure true
  match ← peek with
  | none => failHere .endOfValue
  | some c =>
    if !isDigit c then failAhead .badNumber
    drop
    match ← exponentDigits (digitValue c) (← budget) with
    | some e => decimal positive significand (if up then start + e else start - e)
    | none =>
      if significand ≠ 0 && up then failHere .numberRange
      skipDigits (← budget)
      return .decimal (if positive then "0.0" else "-0.0")

def isExponentMark (c : Option Char) : Bool := c == some 'e' || c == some 'E'

def fractionDigits (significand count : Nat) : Nat → Reader (Nat × Nat)
  | 0 => return (significand, count)
  | fuel + 1 => do
    match ← peekDigit with
    | some d =>
      if 10 * significand + d > maxWord then
        skipDigits (← budget)
        return (significand, count)
      else
        drop
        fractionDigits (10 * significand + d) (count + 1) fuel
    | none => return (significand, count)

def fractionPart (positive : Bool) (significand : Nat) (start : Int) : Reader Found := do
  drop
  let head ← peekDigit
  let (whole, count) ← fractionDigits significand 0 (← budget)
  if head.isNone then
    match ← peek with
    | some _ => failAhead .badNumber
    | none => failAhead .endOfValue
  else if isExponentMark (← peek) then exponentPart positive whole (start - count)
  else decimal positive whole (start - count)

/-- The digits of an integer beyond the largest word, which only scale it. -/
def longDigits (count : Nat) : Nat → Reader Nat
  | 0 => return count
  | fuel + 1 => do
    match ← peekDigit with
    | some _ => drop; longDigits (count + 1) fuel
    | none => return count

def afterInteger (positive : Bool) (significand : Nat) : Reader Found := do
  let c ← peek
  if c = some '.' then fractionPart positive significand 0
  else if isExponentMark c then exponentPart positive significand 0
  else if positive then return .integer significand
  else if significand = 0 || 9223372036854775808 < significand then decimal false significand 0
  else return .integer (-significand)

def integerDigits (positive : Bool) (significand : Nat) : Nat → Reader Found
  | 0 => afterInteger positive significand
  | fuel + 1 => do
    match ← peekDigit with
    | some d =>
      if 10 * significand + d > maxWord then
        let count ← longDigits 0 (← budget)
        let c ← peek
        if c = some '.' then fractionPart positive significand count
        else if isExponentMark c then exponentPart positive significand count
        else decimal positive significand count
      else
        drop
        integerDigits positive (10 * significand + d) fuel
    | none => afterInteger positive significand

def number (positive : Bool) : Reader Found := do
  match ← peek with
  | none => failHere .endOfValue
  | some '0' =>
    drop
    match ← peekDigit with
    | some _ => failAhead .badNumber
    | none => afterInteger positive 0
  | some c =>
    if !isDigit c then failAhead .badNumber
    drop
    integerDigits positive (digitValue c) (← budget)

def skipExponent : Reader Unit := do
  drop
  match ← peek with
  | some '+' => drop
  | some '-' => drop
  | _ => pure ()
  match ← peek with
  | some c => if isDigit c then skipDigits (← budget) else failAhead .badNumber
  | none => failHere .badNumber

def skipNumber : Reader Unit := do
  match ← peek with
  | some '0' =>
    drop
    if (← peekDigit).isSome then failAhead .badNumber
  | some c => if isDigit c then skipDigits (← budget) else failAhead .badNumber
  | none => failHere .badNumber
  let c ← peek
  if c = some '.' then
    drop
    if (← peekDigit).isNone then failAhead .badNumber
    skipDigits (← budget)
    if isExponentMark (← peek) then skipExponent
  else if isExponentMark c then skipExponent

end NetworkCa.Json.Reader
