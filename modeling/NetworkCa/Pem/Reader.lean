import NetworkCa.Text.Base64
import NetworkCa.Text.Blank
import NetworkCa.Text.Quoted
import NetworkCa.Text.Split

namespace NetworkCa.Pem

structure Block where
  label : String
  contents : Bytes
  deriving Repr, DecidableEq

inductive Fault where
  | malformedFraming
  | missingBegin
  | missingEnd
  | mismatch (opening closing : String)
  | invalidData (fault : Text.Base64.Fault)
  | invalidHeader (line : String)
  | notText (fault : Text.Utf8.Fault)
  deriving Repr, DecidableEq

def Fault.message : Fault → String
  | .malformedFraming => "malformedframing"
  | .missingBegin => "missing BEGIN tag"
  | .missingEnd => "missing END tag"
  | .mismatch opening closing =>
    s!"mismatching BEGIN ({Text.quote opening}) and END ({Text.quote closing}) tags"
  | .invalidData fault => s!"invalid data: {fault.message}"
  | .invalidHeader line => s!"invalid header: {line}"
  | .notText fault => s!"invalid utf-8 value: {fault.message}"

structure Raw where
  opening : Bytes
  headers : Bytes
  data : Bytes
  closing : Bytes
  deriving Repr, DecidableEq

def ascii (s : String) : Bytes := Text.Utf8.encode s

def beginMark : Bytes := ascii "-----BEGIN "

def endMark : Bytes := ascii "-----END "

def dashes : Bytes := ascii "-----"

/-- Takes bytes up to the end of a marker of which `left` is still to come. A byte that does not go
    on with the marker starts the search anew behind it. -/
def takeThrough (marker left : Bytes) : Bytes → Option (Bytes × Bytes)
  | [] => none
  | b :: rest =>
    match left with
    | [] => none
    | m :: more =>
      if b = m then
        if more.isEmpty then some ([b], rest)
        else (takeThrough marker more rest).map fun (taken, rest) => (b :: taken, rest)
      else (takeThrough marker marker rest).map fun (taken, rest) => (b :: taken, rest)

def readUntil (marker input : Bytes) : Option (Bytes × Bytes) :=
  (takeThrough marker marker input).map fun (taken, rest) =>
    (taken.take (taken.length - marker.length), rest)

def isGap (b : UInt8) : Bool := b = 32 || b = 9 || b = 10 || b = 13

def skipGaps (input : Bytes) : Bytes := input.dropWhile isGap

def splitBody (body : Bytes) : Bytes × Bytes :=
  let split := readUntil [10, 10] body <|> readUntil [13, 10, 13, 10] body
  split.getD ([], body)

def readRaw (input : Bytes) : Option (Raw × Bytes) := do
  let (_, rest) ← readUntil beginMark input
  let (opening, rest) ← readUntil dashes rest
  let (body, rest) ← readUntil endMark (skipGaps rest)
  let (closing, rest) ← readUntil dashes rest
  let (headers, data) := splitBody body
  return (⟨opening, headers, data, closing⟩, skipGaps rest)

def rawBlocks (input : Bytes) : Nat → List Raw
  | 0 => []
  | fuel + 1 =>
    match readRaw input with
    | some (raw, rest) => raw :: rawBlocks rest fuel
    | none => []

def asText (bytes : Bytes) : Except Fault String :=
  match Text.Utf8.decode bytes with
  | .ok s => .ok s
  | .error fault => .error (.notText fault)

def checkHeader (line : List Char) : Except Fault Unit :=
  if line.contains ':' then .ok () else .error (.invalidHeader (String.ofList line))

def decodeData (data : String) : Except Fault Bytes :=
  let symbols := data.toList.filter fun c => !Text.isBlank c
  match Text.Base64.decode (Text.Utf8.encodeChars symbols) with
  | .ok contents => .ok contents
  | .error fault => .error (.invalidData fault)

def Raw.block (raw : Raw) : Except Fault Block := do
  let opening ← asText raw.opening
  if opening.isEmpty then throw .missingBegin
  let closing ← asText raw.closing
  if closing.isEmpty then throw .missingEnd
  if opening ≠ closing then throw (.mismatch opening closing)
  let contents ← decodeData (← asText raw.data)
  let headers ← asText raw.headers
  let _ ← (Text.lines headers.toList).mapM checkHeader
  return ⟨opening, contents⟩

/-- Every block of a text. One bad block spoils them all. -/
def blocks (input : Bytes) : Except Fault (List Block) :=
  (rawBlocks input input.length).mapM Raw.block

def first (input : Bytes) : Except Fault Block :=
  match readRaw input with
  | some (raw, _) => raw.block
  | none => .error .malformedFraming

end NetworkCa.Pem
