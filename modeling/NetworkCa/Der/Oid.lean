import NetworkCa.Der.Writer
import NetworkCa.Text.Hex

namespace NetworkCa.Der

structure Oid where
  content : Bytes
  deriving Repr, DecidableEq

namespace Oid

/-- The identifier of some numbers, of which the first two share a digit group. -/
def ofNumbers : List Nat → Oid
  | a :: b :: rest => ⟨digits128 (40 * a + b) ++ rest.flatMap digits128⟩
  | _ => ⟨[]⟩

/-- The numbers that are written in seven-bit digits. The last one may lack its last digit. -/
def numbersOf (n : Nat) (open_ : Bool) : Bytes → List Nat
  | [] => if open_ then [n] else []
  | b :: rest =>
    let n := 128 * n + b.toNat % 128
    if b < 128 then n :: numbersOf 0 false rest else numbersOf n true rest

def longestNumber (best current : Nat) : Bytes → Nat
  | [] => best
  | b :: rest =>
    if b < 128 then longestNumber (max best (current + 1)) 0 rest
    else longestNumber best (current + 1) rest

def numbers (o : Oid) : List Nat :=
  match o.content with
  | [] => []
  | [0] => [0]
  | b :: rest => b.toNat / 40 :: b.toNat % 40 :: numbersOf 0 false rest

def isShort (o : Oid) : Bool := 7 * longestNumber 0 0 (o.content.drop 1) ≤ 64

def text (o : Oid) : String :=
  if o.isShort then ".".intercalate (o.numbers.map toString)
  else
    let pair (b : UInt8) := String.ofList (Text.Hex.byteWith Text.Hex.lowerDigit b)
    " ".intercalate (o.content.map pair)

end Oid

def objectIdentifier (o : Oid) : Bytes := write .objectIdentifier o.content

end NetworkCa.Der
