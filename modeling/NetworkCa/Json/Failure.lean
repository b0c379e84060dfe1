import NetworkCa.Text.Quoted

namespace NetworkCa.Json

inductive Found where
  | null
  | boolean (value : Bool)
  | integer (value : Int)
  | decimal (digits : String)
  | text (value : String)
  | sequence
  | map
  deriving Repr, DecidableEq

def Found.describe : Found → String
  | .null => "null"
  | .boolean value => s!"boolean `{value}`"
  | .integer value => s!"integer `{value}`"
  | .decimal digits => s!"floating point `{digits}`"
  | .text value => s!"string {Text.quote value}"
  | .sequence => "sequence"
  | .map => "map"

inductive Cause where
  | endOfValue
  | endOfText
  | endOfList
  | endOfObject
  | expectedColon
  | expectedCommaOrListEnd
  | expectedCommaOrObjectEnd
  | expectedWord
  | expectedValue
  | badEscape
  | badNumber
  | numberRange
  | controlCharacter
  | keyNotText
  | loneSurrogate
  | endOfHexEscape
  | trailingComma
  | trailingCharacters
  | wrongType (found : Found) (expected : String)
  | unknownVariant (name : String) (known : List String)
  | missingField (name : String)
  | duplicateField (name : String)
  | wrongLength (length : Nat) (expected : String)
  deriving Repr, DecidableEq

def alternatives : List String → String
  | [] => "there are no variants"
  | [a] => s!"expected `{a}`"
  | [a, b] => s!"expected `{a}` or `{b}`"
  | names => "expected one of " ++ ", ".intercalate (names.map fun n => s!"`{n}`")

def Cause.message : Cause → String
  | .endOfValue => "EOF while parsing a value"
  | .endOfText => "EOF while parsing a string"
  | .endOfList => "EOF while parsing a list"
  | .endOfObject => "EOF while parsing an object"
  | .expectedColon => "expected `:`"
  | .expectedCommaOrListEnd => "expected `,` or `]`"
  | .expectedCommaOrObjectEnd => "expected `,` or `\x7d`"
  | .expectedWord => "expected ident"
  | .expectedValue => "expected value"
  | .badEscape => "invalid escape"
  | .badNumber => "invalid number"
  | .numberRange => "number out of range"
  | .controlCharacter => "control character (\\u0000-\\u001F) found while parsing a string"
  | .keyNotText => "key must be a string"
  | .loneSurrogate => "lone leading surrogate in hex escape"
  | .endOfHexEscape => "unexpected end of hex escape"
  | .trailingComma => "trailing comma"
  | .trailingCharacters => "trailing characters"
  | .wrongType found expected => s!"invalid type: {found.describe}, expected {expected}"
  | .unknownVariant name known => s!"unknown variant `{name}`, {alternatives known}"
  | .missingField name => s!"missing field `{name}`"
  | .duplicateField name => s!"duplicate field `{name}`"
  | .wrongLength length expected => s!"invalid length {length}, expected {expected}"

/-- A line, counted from 1, and the bytes of it that were read. -/
structure Position where
  line : Nat
  column : Nat
  deriving Repr, DecidableEq

structure Failure where
  cause : Cause
  /-- None until the reader that knows it has left the value. -/
  position : Option Position
  deriving Repr, DecidableEq

def Failure.message (f : Failure) : String :=
  match f.position with
  | some p => s!"{f.cause.message} at line {p.line} column {p.column}"
  | none => f.cause.message

end NetworkCa.Json
