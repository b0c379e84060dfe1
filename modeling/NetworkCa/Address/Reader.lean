import NetworkCa.Address.Basic

namespace NetworkCa.Address

def spanDigits (base : Nat) : List Char → List Nat × List Char
  | [] => ([], [])
  | c :: cs =>
    match digit? c with
    | some d =>
      if d < base then
        let (digits, rest) := spanDigits base cs
        (d :: digits, rest)
      else ([], c :: cs)
    | none => ([], c :: cs)
where
  digit? (c : Char) : Option Nat :=
    if '0' ≤ c && c ≤ '9' then some (c.toNat - 48)
    else if 'a' ≤ c && c ≤ 'f' then some (c.toNat - 87)
    else if 'A' ≤ c && c ≤ 'F' then some (c.toNat - 55)
    else none

def valueOf (base : Nat) (digits : List Nat) : Nat := digits.foldl (fun n d => base * n + d) 0

/-- A byte in at most three digits, which start with a zero only if they are one. -/
def readByte (s : List Char) : Option (UInt8 × List Char) :=
  let (digits, rest) := spanDigits 10 s
  if digits.isEmpty || digits.length > 3 then none
  else if digits.head? = some 0 && digits.length > 1 then none
  else if valueOf 10 digits > 255 then none
  else some (UInt8.ofNat (valueOf 10 digits), rest)

def readGroup (s : List Char) : Option (UInt16 × List Char) :=
  let (digits, rest) := spanDigits 16 s
  if digits.isEmpty || digits.length > 4 then none
  else some (UInt16.ofNat (valueOf 16 digits), rest)

def readMark (mark : Char) : List Char → Option (List Char)
  | c :: rest => if c = mark then some rest else none
  | [] => none

def readV4 (s : List Char) : Option (Bytes × List Char) := do
  let (a, s) ← readByte s
  let (b, s) ← readByte (← readMark '.' s)
  let (c, s) ← readByte (← readMark '.' s)
  let (d, s) ← readByte (← readMark '.' s)
  return ([a, b, c, d], s)

def joinBytes (high low : UInt8) : UInt16 := UInt16.ofNat (high.toNat * 256 + low.toNat)

def readTail (s : List Char) : Option (List UInt16 × List Char) :=
  match readV4 s with
  | some ([a, b, c, d], rest) => some ([joinBytes a b, joinBytes c d], rest)
  | _ => none

structure Groups where
  read : List UInt16
  rest : List Char
  tailed : Bool

def readGroups (first : Bool) (s : List Char) : Nat → Groups
  | 0 => ⟨[], s, false⟩
  | room + 1 =>
    match if first then some s else readMark ':' s with
    | none => ⟨[], s, false⟩
    | some start =>
      match if 0 < room then readTail start else none with
      | some (pair, rest) => ⟨pair, rest, true⟩
      | none =>
        match readGroup start with
        | none => ⟨[], s, false⟩
        | some (g, rest) =>
          let more := readGroups false rest room
          ⟨g :: more.read, more.rest, more.tailed⟩

def ofGroups? (groups : List UInt16) : Option Address :=
  if h : groups.length = 8 then some (.v6 ⟨groups.toArray, by simpa using h⟩) else none

/-- Eight groups, or fewer with two colons that stand for one or more zero groups. -/
def readV6 (s : List Char) : Option (Address × List Char) := do
  let front := readGroups true s 8
  if front.read.length = 8 then return (← ofGroups? front.read, front.rest)
  if front.tailed then none
  let s ← readMark ':' (← readMark ':' front.rest)
  let back := readGroups true s (7 - front.read.length)
  let zeros := List.replicate (8 - front.read.length - back.read.length) 0
  return (← ofGroups? (front.read ++ zeros ++ back.read), back.rest)

def parse? (s : List Char) : Option Address :=
  match readV4 s with
  | some ([a, b, c, d], []) => some (.v4 a b c d)
  | some _ => none
  | none =>
    match readV6 s with
    | some (address, []) => some address
    | _ => none

end NetworkCa.Address
