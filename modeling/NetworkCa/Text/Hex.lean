import NetworkCa.Text.Utf8
import NetworkCa.Text.Quoted

namespace NetworkCa.Text.Hex

def lowerDigit (n : Nat) : Char :=
  if n < 10 then Char.ofNat (48 + n) else Char.ofNat (87 + n)

def upperDigit (n : Nat) : Char :=
  if n < 10 then Char.ofNat (48 + n) else Char.ofNat (55 + n)

def byteWith (digit : Nat → Char) (b : UInt8) : List Char :=
  [digit (b.toNat / 16), digit (b.toNat % 16)]

def lower (bytes : Bytes) : String := String.ofList (bytes.flatMap (byteWith lowerDigit))

def upper (bytes : Bytes) : String := String.ofList (bytes.flatMap (byteWith upperDigit))

def colons (digit : Nat → Char) (bytes : Bytes) : String :=
  ":".intercalate (bytes.map fun b => String.ofList (byteWith digit b))

def digitValue? (b : UInt8) : Option UInt8 :=
  if 48 ≤ b && b ≤ 57 then some (b - 48)
  else if 65 ≤ b && b ≤ 70 then some (b - 55)
  else if 97 ≤ b && b ≤ 102 then some (b - 87)
  else none

inductive Fault where
  | oddLength
  | badDigit (byte : UInt8) (position : Nat)
  deriving Repr, DecidableEq

def Fault.message : Fault → String
  | .oddLength => "Odd number of digits"
  | .badDigit byte position =>
    s!"Invalid character {quoteChar (Char.ofNat byte.toNat)} at position {position}"

def digitAt (position : Nat) (b : UInt8) : Except Fault UInt8 :=
  match digitValue? b with
  | some v => .ok v
  | none => .error (.badDigit b position)

def decodePairs (position : Nat) : Bytes → Except Fault Bytes
  | [] => .ok []
  | [_] => .error .oddLength
  | high :: low :: rest => do
    let h ← digitAt position high
    let l ← digitAt (position + 1) low
    return (h * 16 + l) :: (← decodePairs (position + 2) rest)

def decode (text : Bytes) : Except Fault Bytes :=
  if text.length % 2 = 0 then decodePairs 0 text else .error .oddLength

end NetworkCa.Text.Hex
