import NetworkCa.Text.Utf8

namespace NetworkCa.Text.Base64

def symbol (n : Nat) : UInt8 :=
  if n < 26 then UInt8.ofNat (65 + n)
  else if n < 52 then UInt8.ofNat (71 + n)
  else if n < 62 then UInt8.ofNat (n - 4)
  else if n = 62 then 43
  else 47

def value? (b : UInt8) : Option Nat :=
  if 65 ≤ b && b ≤ 90 then some (b.toNat - 65)
  else if 97 ≤ b && b ≤ 122 then some (b.toNat - 71)
  else if 48 ≤ b && b ≤ 57 then some (b.toNat + 4)
  else if b = 43 then some 62
  else if b = 47 then some 63
  else none

def pad : UInt8 := 61

def encode : Bytes → Bytes
  | [] => []
  | [a] => [symbol (a.toNat / 4), symbol (a.toNat % 4 * 16), pad, pad]
  | [a, b] =>
    [symbol (a.toNat / 4), symbol (a.toNat % 4 * 16 + b.toNat / 16),
      symbol (b.toNat % 16 * 4), pad]
  | a :: b :: c :: rest =>
    symbol (a.toNat / 4) :: symbol (a.toNat % 4 * 16 + b.toNat / 16) ::
      symbol (b.toNat % 16 * 4 + c.toNat / 64) :: symbol (c.toNat % 64) :: encode rest

inductive Fault where
  | badSymbol (byte : UInt8) (offset : Nat)
  | badLength (offset : Nat)
  | badLast (byte : UInt8) (offset : Nat)
  | badPadding
  deriving Repr, DecidableEq

def Fault.message : Fault → String
  | .badSymbol byte offset => s!"Invalid symbol {byte}, offset {offset}."
  | .badLength offset => s!"Invalid input length: {offset}"
  | .badLast byte offset => s!"Invalid last symbol {byte}, offset {offset}."
  | .badPadding => "Invalid padding"

def valueAt (offset : Nat) (b : UInt8) : Except Fault Nat :=
  match value? b with
  | some v => .ok v
  | none => .error (.badSymbol b offset)

def bytesOfGroup (v0 v1 v2 v3 : Nat) : Bytes :=
  [UInt8.ofNat (v0 * 4 + v1 / 16), UInt8.ofNat (v1 % 16 * 16 + v2 / 4),
    UInt8.ofNat (v2 % 4 * 64 + v3)]

/-- The symbols before any padding of the last group, which padding may only end. -/
def lastSymbols (offset : Nat) (group : Bytes) : Except Fault (List Nat × Nat) :=
  let symbols := group.takeWhile (· != pad)
  let padding := group.dropWhile (· != pad)
  do
    let values ← (symbols.zipIdx offset).mapM fun (b, at_) => valueAt at_ b
    match padding with
    | [] => return (values, 0)
    | _ =>
      if symbols.length < 2 || padding.any (· != pad) then
        throw (.badSymbol pad (offset + symbols.length))
      else return (values, padding.length)

def decodeLast (offset : Nat) (group : Bytes) : Except Fault Bytes := do
  let (values, padding) ← lastSymbols offset group
  let overhang (v : Nat) (bits : Nat) : Except Fault Unit :=
    if v % bits = 0 then .ok ()
    else .error (.badLast (symbol v) (offset + values.length - 1))
  if values.length < 2 then throw (.badLength (offset + values.length))
  if values.length + padding ≠ 4 then throw .badPadding
  match values with
  | [v0, v1] => do
    overhang v1 16
    return [UInt8.ofNat (v0 * 4 + v1 / 16)]
  | [v0, v1, v2] => do
    overhang v2 4
    return (bytesOfGroup v0 v1 v2 0).take 2
  | [v0, v1, v2, v3] => return bytesOfGroup v0 v1 v2 v3
  | _ => throw .badPadding

def decodeGroups (offset : Nat) : Bytes → Except Fault Bytes
  | [] => .ok []
  | a :: b :: c :: d :: e :: rest => do
    let v0 ← valueAt offset a
    let v1 ← valueAt (offset + 1) b
    let v2 ← valueAt (offset + 2) c
    let v3 ← valueAt (offset + 3) d
    return bytesOfGroup v0 v1 v2 v3 ++ (← decodeGroups (offset + 4) (e :: rest))
  | last => decodeLast offset last

/-- Reads padded base64. A stray last byte that is no symbol is reported before all else. -/
def decode (text : Bytes) : Except Fault Bytes :=
  match text.getLast? with
  | some last =>
    if text.length % 4 = 1 && last != pad && (value? last).isNone then
      .error (.badSymbol last (text.length - 1))
    else decodeGroups 0 text
  | none => .ok []

end NetworkCa.Text.Base64
