import NetworkCa.Json.Text
import NetworkCa.Json.Number

namespace NetworkCa.Json.Reader

variable {α : Type}

mutual

def skipValueWithin : Nat → Reader Unit
  | 0 => failAhead .endOfValue
  | fuel + 1 => do
    match ← peekValue with
    | none => failAhead .endOfValue
    | some 'n' => drop; word ['u', 'l', 'l']
    | some 't' => drop; word ['r', 'u', 'e']
    | some 'f' => drop; word ['a', 'l', 's', 'e']
    | some '-' => drop; skipNumber
    | some '"' => drop; skipText
    | some '[' => drop; skipElements true fuel
    | some '\x7b' => drop; skipMembers true fuel
    | some c => if isDigit c then skipNumber else failAhead .expectedValue

def skipElements (first : Bool) : Nat → Reader Unit
  | 0 => failAhead .endOfList
  | fuel + 1 => do
    match ← peekValue with
    | none => failAhead .endOfList
    | some ']' => drop
    | some c =>
      if first then skipValueWithin fuel; skipElements false fuel
      else if c = ',' then drop; skipValueWithin fuel; skipElements false fuel
      else failAhead .expectedCommaOrListEnd

def skipMembers (first : Bool) : Nat → Reader Unit
  | 0 => failAhead .endOfObject
  | fuel + 1 => do
    match ← peekValue with
    | none => failAhead .endOfObject
    | some '\x7d' => drop
    | some c =>
      if first then skipMember fuel; skipMembers false fuel
      else if c = ',' then drop; skipMember fuel; skipMembers false fuel
      else failAhead .expectedCommaOrObjectEnd

def skipMember : Nat → Reader Unit
  | 0 => failAhead .endOfObject
  | fuel + 1 => do
    match ← peekValue with
    | some '"' => drop
    | some _ => failAhead .keyNotText
    | none => failAhead .endOfObject
    skipText
    colon
    skipValueWithin fuel

end

def skipValue : Reader Unit := do skipValueWithin (2 * (← budget))

def wrongType (expected : String) : Reader α := do
  let fail (found : Found) : Reader α := located (failSomewhere (.wrongType found expected))
  match ← peek with
  | some 'n' => drop; word ['u', 'l', 'l']; fail .null
  | some 't' => drop; word ['r', 'u', 'e']; fail (.boolean true)
  | some 'f' => drop; word ['a', 'l', 's', 'e']; fail (.boolean false)
  | some '-' => drop; fail (← number false)
  | some '"' => drop; fail (.text (← text))
  | some '[' => fail .sequence
  | some '\x7b' => fail .map
  | some c => if isDigit c then fail (← number true) else failAhead .expectedValue
  | none => failAhead .expectedValue

def valueStart : Reader Char := do
  match ← peekValue with
  | some c => return c
  | none => failAhead .endOfValue

def textValue (expected : String) : Reader String := do
  if (← valueStart) = '"' then drop; text else wrongType expected

def unitValue : Reader Unit := do
  if (← valueStart) = 'n' then drop; word ['u', 'l', 'l'] else wrongType "unit"

def optional (r : Reader α) : Reader (Option α) := do
  if (← peekValue) = some 'n' then drop; word ['u', 'l', 'l']; return none
  else return some (← r)

def variant (known : List String) (find : String → Option α) : Reader α := do
  let name (s : String) : Reader α :=
    match find s with
    | some a => return a
    | none => located (failSomewhere (.unknownVariant s known))
  match ← peekValue with
  | none => failAhead .endOfValue
  | some '"' => drop; name (← text)
  | some '\x7b' =>
    drop
    match ← peekValue with
    | some '"' => drop
    | some _ => failAhead .keyNotText
    | none => failAhead .endOfValue
    let a ← name (← text)
    colon
    unitValue
    match ← peekValue with
    | some '\x7d' => drop; return a
    | some _ => failHere .expectedValue
    | none => failHere .endOfObject
  | some _ => failAhead .expectedValue

def elements (r : Reader α) (first : Bool) : Nat → Reader (List α)
  | 0 => return []
  | fuel + 1 => do
    if ← moreElements first then return (← r) :: (← elements r false fuel) else return []

def list (r : Reader α) : Reader (List α) := do
  if (← valueStart) = '[' then
    located (enclosed (do drop; elements r true (← budget)) listEnd)
  else wrongType "a sequence"

def run (r : Reader α) (s : String) : Except Failure α :=
  let whole : Reader α := do
    let a ← r
    match ← peekValue with
    | none => return a
    | some _ => failAhead .trailingCharacters
  (whole (Cursor.ofString s)).1

end NetworkCa.Json.Reader
