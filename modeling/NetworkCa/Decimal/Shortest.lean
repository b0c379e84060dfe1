namespace NetworkCa.Decimal

/-- A positive number `mantissa · 2 ^ exponent` of a binary format, with the numbers that round to
    it. Those reach half a unit up and half a unit down, or a quarter down where `narrow`. -/
structure Binary where
  mantissa : Nat
  exponent : Int
  narrow : Bool
  deriving Repr

namespace Binary

structure Scaled where
  low : Nat
  value : Nat
  high : Nat
  den : Nat
  closed : Bool

def scaled (b : Binary) : Scaled :=
  let up := Nat.pow 2 b.exponent.toNat
  { low := (4 * b.mantissa - (if b.narrow then 1 else 2)) * up
    value := 4 * b.mantissa * up
    high := (4 * b.mantissa + 2) * up
    den := 4 * Nat.pow 2 (-b.exponent).toNat
    closed := b.mantissa % 2 == 0 }

def Scaled.inUnits (s : Scaled) (k : Int) : Scaled :=
  let up := Nat.pow 10 (-k).toNat
  { s with
    low := s.low * up
    value := s.value * up
    high := s.high * up
    den := s.den * Nat.pow 10 k.toNat }

def Scaled.holds (s : Scaled) (c : Nat) : Bool :=
  let n := c * s.den
  if s.closed then s.low ≤ n && n ≤ s.high else s.low < n && n < s.high

def onGrid (s : Scaled) (k : Int) : Option Nat :=
  let u := s.inUnits k
  let c := u.value / u.den
  let up := c + 1
  match u.holds c && 0 < c, u.holds up with
  | true, true =>
    let below := u.value - c * u.den
    let above := up * u.den - u.value
    some (if below < above || (below == above && c % 2 == 0) then c else up)
  | true, false => some c
  | false, true => some up
  | false, false => none

def firstHit (s : Scaled) (k : Int) : Nat → Nat × Int
  | 0 =>
    let u := s.inUnits k
    (u.value / u.den, k)
  | steps + 1 =>
    match onGrid s k with
    | some c => (c, k)
    | none => firstHit s (k - 1) steps

def topExponent (s : Scaled) : Int :=
  if s.value ≥ s.den then ((toString (s.value / s.den)).length : Int)
  else -((toString (s.den / s.value)).length : Int) + 1

/-- The fewest digits that round to `b`, as a number and the power of ten it counts. -/
def shortest (b : Binary) : Nat × Int := firstHit b.scaled (topExponent b.scaled) 400

end Binary

def binaryOfBits (bits : UInt64) : Binary :=
  let fraction := bits.toNat % Nat.pow 2 52
  let field := (bits.toNat / Nat.pow 2 52) % 2048
  if field = 0 then ⟨fraction, -1074, false⟩
  else ⟨Nat.pow 2 52 + fraction, Int.ofNat field - 1075, fraction == 0 && 1 < field⟩

def stripZeros : Nat → Nat × Int → Nat × Int
  | 0, d => d
  | fuel + 1, d =>
    if d.1 % 10 = 0 ∧ d.1 ≠ 0 then stripZeros fuel (d.1 / 10, d.2 + 1) else d

/-- Positional up to sixteen places before the point and five after it, always with a point;
    beyond that one digit, the others after a point, and an exponent with its sign. -/
def place (n : Nat) (k : Int) : String :=
  let text := (toString n).toList
  let point := (text.length : Int) + k
  if 0 ≤ k && point ≤ 16 then
    String.ofList (text ++ List.replicate k.toNat '0' ++ ['.', '0'])
  else if 0 < point && point ≤ 16 then
    String.ofList (text.take point.toNat ++ '.' :: text.drop point.toNat)
  else if -5 < point && point ≤ 0 then
    String.ofList (['0', '.'] ++ List.replicate (-point).toNat '0' ++ text)
  else
    let fraction := if text.length = 1 then [] else '.' :: text.drop 1
    let mark := if 0 < point then "e+" else "e"
    String.ofList (text.take 1 ++ fraction) ++ mark ++ toString (point - 1)

def ofFloat (x : Float) : String :=
  let bits := x.toBits
  let sign := if Nat.pow 2 63 ≤ bits.toNat then "-" else ""
  let magnitude := UInt64.ofNat (bits.toNat % Nat.pow 2 63)
  if magnitude = 0 then sign ++ "0.0"
  else
    let (n, k) := stripZeros 400 (binaryOfBits magnitude).shortest
    sign ++ place n k

end NetworkCa.Decimal
