import NetworkCa.Json.Reader

namespace NetworkCa.Json.Reader

def hexValue? (b : UInt8) : Option Nat :=
  if 48 ≤ b && b ≤ 57 then some (b.toNat - 48)
  else if 65 ≤ b && b ≤ 70 then some (b.toNat - 55)
  else if 97 ≤ b && b ≤ 102 then some (b.toNat - 87)
  else none

/-- The number that four hexadecimal digits write. Four bytes are taken whatever they are. -/
def fourDigits : Reader Nat := do
  let k ← get
  let bytes := (Text.Utf8.encodeChars (k.rest.take 4)).take 4
  let stop := bytes.foldl Cursor.afterByte k.position
  if bytes.length < 4 then throw ⟨.endOfText, some stop⟩
  match bytes.mapM hexValue? with
  | some digits =>
    set { k with position := stop, rest := k.rest.drop 4 }
    return digits.foldl (fun n d => 16 * n + d) 0
  | none => throw ⟨.badEscape, some stop⟩

def isLeading (n : Nat) : Bool := 0xD800 ≤ n && n ≤ 0xDBFF

def isTrailing (n : Nat) : Bool := 0xDC00 ≤ n && n ≤ 0xDFFF

def trailingHalf (leading : Nat) : Reader Char := do
  match ← peek with
  | none => failHere .endOfText
  | some '\\' =>
    drop
    match ← peek with
    | none => failHere .endOfText
    | some 'u' =>
      drop
      let n ← fourDigits
      if isTrailing n then
        return Char.ofNat (0x10000 + (leading - 0xD800) * 0x400 + (n - 0xDC00))
      else failHere .loneSurrogate
    | some _ => failAhead .endOfHexEscape
  | some _ => failAhead .endOfHexEscape

def unicodeEscape : Reader Char := do
  let n ← fourDigits
  if isTrailing n then failHere .loneSurrogate
  else if isLeading n then trailingHalf n
  else return Char.ofNat n

def plainEscape? : Char → Option Char
  | '"' => some '"'
  | '\\' => some '\\'
  | '/' => some '/'
  | 'b' => some '\x08'
  | 'f' => some '\x0c'
  | 'n' => some '\n'
  | 'r' => some '\r'
  | 't' => some '\t'
  | _ => none

def escape : Reader Char := do
  match ← peek with
  | none => failHere .endOfText
  | some 'u' => drop; unicodeEscape
  | some c =>
    match plainEscape? c with
    | some e => drop; return e
    | none => failAhead .badEscape

def textBody : Nat → Reader (List Char)
  | 0 => failHere .endOfText
  | fuel + 1 => do
    match ← next with
    | none => failHere .endOfText
    | some '"' => return []
    | some '\\' => return (← escape) :: (← textBody fuel)
    | some c =>
      if c.toNat < 0x20 then failHere .controlCharacter else return c :: (← textBody fuel)

def text : Reader String := do return String.ofList (← textBody (← budget))

def skipEscape : Reader Unit := do
  match ← peek with
  | none => failHere .endOfText
  | some 'u' => drop; let _ ← fourDigits
  | some c => if (plainEscape? c).isSome then drop else failAhead .badEscape

def skipTextBody : Nat → Reader Unit
  | 0 => failHere .endOfText
  | fuel + 1 => do
    match ← peek with
    | none => failHere .endOfText
    | some '"' => drop
    | some '\\' => drop; skipEscape; skipTextBody fuel
    | some c => if c.toNat < 0x20 then failHere .controlCharacter else drop; skipTextBody fuel

def skipText : Reader Unit := do skipTextBody (← budget)

end NetworkCa.Json.Reader
