import NetworkCa.Json.Failure
import NetworkCa.Text.Utf8

namespace NetworkCa.Json

structure Cursor where
  position : Position
  rest : List Char
  size : Nat
  deriving Repr

namespace Cursor

def ofString (s : String) : Cursor := ⟨⟨1, 0⟩, s.toList, s.toList.length⟩

def afterByte (p : Position) (b : UInt8) : Position :=
  if b = 10 then ⟨p.line + 1, 0⟩ else ⟨p.line, p.column + 1⟩

def afterChar (p : Position) (c : Char) : Position :=
  if c = '\n' then ⟨p.line + 1, 0⟩ else ⟨p.line, p.column + c.utf8Size⟩

def ahead (k : Cursor) : Position :=
  match k.rest with
  | [] => k.position
  | c :: _ => if c = '\n' then afterChar k.position c else ⟨k.position.line, k.position.column + 1⟩

end Cursor

/-- Reads from a cursor. A reading that fails leaves the cursor where it stopped. -/
abbrev Reader := ExceptT Failure (StateM Cursor)

namespace Reader

variable {α : Type}

def failHere (cause : Cause) : Reader α := do throw ⟨cause, some (← get).position⟩

def failAhead (cause : Cause) : Reader α := do throw ⟨cause, some (← get).ahead⟩

def failSomewhere (cause : Cause) : Reader α := throw ⟨cause, none⟩

def peek : Reader (Option Char) := do return (← get).rest.head?

def next : Reader (Option Char) := do
  let k ← get
  match k.rest with
  | [] => return none
  | c :: rest =>
    set { k with position := Cursor.afterChar k.position c, rest := rest }
    return some c

def drop : Reader Unit := do let _ ← next

def isSpace (c : Char) : Bool := c == ' ' || c == '\n' || c == '\t' || c == '\r'

def skipSpaces (p : Position) : List Char → Position × List Char
  | [] => (p, [])
  | c :: cs => if isSpace c then skipSpaces (Cursor.afterChar p c) cs else (p, c :: cs)

def peekValue : Reader (Option Char) := do
  modify fun k =>
    let (position, rest) := skipSpaces k.position k.rest
    { k with position, rest }
  peek

def located (r : Reader α) : Reader α := fun k =>
  match r k with
  | (.error ⟨cause, none⟩, stop) => (.error ⟨cause, some stop.position⟩, stop)
  | result => result

/-- Reads a body and then its end. The end is tried also after a failure, since it moves the place
    where reading stopped; the failure of the body comes first. -/
def enclosed (body : Reader α) (finish : Reader Unit) : Reader α := fun k =>
  match body k with
  | (.ok a, stop) =>
    match finish stop with
    | (.ok (), stop) => (.ok a, stop)
    | (.error f, stop) => (.error f, stop)
  | (.error f, stop) => (.error f, (finish stop).2)

def word : List Char → Reader Unit
  | [] => return ()
  | w :: ws => do
    match ← peek with
    | none => failHere .endOfValue
    | some c => if c = w then drop; word ws else failAhead .expectedWord

def listEnd : Reader Unit := do
  match ← peekValue with
  | some ']' => drop
  | some ',' =>
    drop
    match ← peekValue with
    | some ']' => failAhead .trailingComma
    | _ => failAhead .trailingCharacters
  | some _ => failAhead .trailingCharacters
  | none => failAhead .endOfList

def objectEnd : Reader Unit := do
  match ← peekValue with
  | some '\x7d' => drop
  | some ',' => failAhead .trailingComma
  | some _ => failAhead .trailingCharacters
  | none => failAhead .endOfObject

def colon : Reader Unit := do
  match ← peekValue with
  | some ':' => drop
  | some _ => failAhead .expectedColon
  | none => failAhead .endOfObject

def moreElements (first : Bool) : Reader Bool := do
  match ← peekValue with
  | none => failAhead .endOfList
  | some ']' => return false
  | some c =>
    if first then return true
    else if c = ',' then
      drop
      match ← peekValue with
      | some ']' => failAhead .trailingComma
      | some _ => return true
      | none => failAhead .endOfValue
    else failAhead .expectedCommaOrListEnd

def moreKeys (first : Bool) : Reader Bool := do
  match ← peekValue with
  | none => failAhead .endOfObject
  | some '\x7d' => return false
  | some c =>
    if first then
      if c = '"' then drop; return true else failAhead .keyNotText
    else if c = ',' then
      drop
      match ← peekValue with
      | some '"' => drop; return true
      | some '\x7d' => failAhead .trailingComma
      | some _ => failAhead .keyNotText
      | none => failAhead .endOfValue
    else failAhead .expectedCommaOrObjectEnd

def budget : Reader Nat := do return 2 * (← get).size + 2

end Reader

end NetworkCa.Json
