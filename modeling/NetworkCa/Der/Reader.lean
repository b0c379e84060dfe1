import NetworkCa.Der.Oid

namespace NetworkCa.Der

abbrev Reader := StateT Bytes Option

namespace Reader

variable {α : Type}

def byte : Reader UInt8 := fun bytes =>
  match bytes with
  | b :: rest => some (b, rest)
  | [] => none

def take (n : Nat) : Reader Bytes := fun bytes =>
  if n ≤ bytes.length then some (bytes.splitAt n) else none

def longNumber (n : Nat) : Nat → Reader Nat
  | 0 => failure
  | fuel + 1 => do
    let b ← byte
    let n := 128 * n + b.toNat % 128
    if b < 128 then return n else longNumber n fuel

def tag : Reader Tag := do
  let b ← byte
  let number ← if b.toNat % 32 = 31 then longNumber 0 5 else pure (b.toNat % 32)
  return ⟨.ofByte b, number, b.toNat / 32 % 2 = 1⟩

/-- The length of a content, which may be written with more bytes than it needs. -/
def length : Reader Nat := do
  let b ← byte
  if b < 128 then return b.toNat
  let count := b.toNat - 128
  if count = 0 || count > 8 then failure
  return natOfBytes (← take count)

def header : Reader (Tag × Nat) := do return (← tag, ← length)

def element : Reader Element := do
  let (t, n) ← header
  return ⟨t, ← take n⟩

def content (t : Tag) : Reader Bytes := do
  let e ← element
  if t.accepts e.tag then return e.content else failure

/-- Reads what it reads within the content of an element, and leaves out what comes after that. -/
def inside (t : Tag) (r : Reader α) : Reader α := do
  let body ← content t
  let (a, _) ← (r body : Option (α × Bytes))
  return a

def filling (t : Tag) (r : Reader α) : Reader α := do
  let body ← content t
  let (a, rest) ← (r body : Option (α × Bytes))
  if rest.isEmpty then return a else failure

/-- An element that is written in the only way that a writer has for it. -/
def canonical (t : Tag) : Reader Bytes := fun bytes =>
  match element bytes with
  | some (e, rest) =>
    if e.tag = t && write t e.content == bytes.take (bytes.length - rest.length) then
      some (e.content, rest)
    else none
  | none => none

def withBytes (r : Reader α) : Reader (α × Bytes) := fun bytes =>
  match r bytes with
  | some (a, rest) => some ((a, bytes.take (bytes.length - rest.length)), rest)
  | none => none

def maybe (r : Reader α) : Reader (Option α) := fun bytes =>
  match r bytes with
  | some (a, rest) => some (some a, rest)
  | none => some (none, bytes)

def many (r : Reader α) : Nat → Reader (List α)
  | 0 => return []
  | fuel + 1 => do
    match ← maybe r with
    | some a => return a :: (← many r fuel)
    | none => return []

def zeroOrMore (r : Reader α) : Reader (List α) := do many r (← get).length

def atEnd : Reader Bool := do return (← get).isEmpty

def objectIdentifier : Reader Oid := do return ⟨← content .objectIdentifier⟩

/-- Bits, with the number of those that are left over in the last byte, which must be zero. -/
def bitsOfContent : Bytes → Option (Nat × Bytes)
  | [] => none
  | [unused] => if unused = 0 then some (0, []) else none
  | unused :: bytes =>
    let last := (bytes.getLast?.getD 0).toNat
    if unused.toNat ≤ 8 && last % Nat.pow 2 unused.toNat = 0 then some (unused.toNat, bytes)
    else none

def bitString : Reader (Nat × Bytes) := do bitsOfContent (← content .bitString)

end Reader

def readAll {α : Type} (r : Reader α) (bytes : Bytes) : Option α :=
  match r bytes with
  | some (a, []) => some a
  | _ => none

def readFront {α : Type} (r : Reader α) (bytes : Bytes) : Option α := (r bytes).map (·.1)

end NetworkCa.Der
