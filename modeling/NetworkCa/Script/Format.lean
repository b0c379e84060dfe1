import NetworkCa.Text.Utf8

namespace NetworkCa.Script

def isOctal (c : Char) : Bool := '0' ≤ c && c ≤ '7'

def octalValue (digits : List Char) : Nat := digits.foldl (fun n c => 8 * n + (c.toNat - 48)) 0

def plainEscape? : Char → Option UInt8
  | 'n' => some 10
  | 't' => some 9
  | 'r' => some 13
  | 'a' => some 7
  | 'b' => some 8
  | 'f' => some 12
  | 'v' => some 11
  | '\\' => some 92
  | _ => none

/-- The byte behind a backslash, from up to three octal digits after `skip` zeros, or from a
    letter. -/
def escape? (skip : Nat) (s : List Char) : Option (UInt8 × List Char) :=
  match s with
  | [] => none
  | c :: rest =>
    match plainEscape? c with
    | some b => some (b, rest)
    | none =>
      let body := s.drop skip
      let digits := (body.take 3).takeWhile isOctal
      if isOctal c && (skip = 0 || c = '0') then
        some (UInt8.ofNat (octalValue digits), body.drop digits.length)
      else none

def unescape (skip : Nat) : Nat → List Char → Bytes
  | 0, _ => []
  | _ + 1, [] => []
  | fuel + 1, '\\' :: rest =>
    match escape? skip rest with
    | some (b, rest) => b :: unescape skip fuel rest
    | none => 92 :: unescape skip fuel rest
  | fuel + 1, c :: rest => Text.Utf8.encodeChars [c] ++ unescape skip fuel rest

def unescaped (skip : Nat) (s : String) : Bytes := unescape skip (s.length + 1) s.toList

def formatOnce : Nat → List Char → List String → Bytes × List String × Bool
  | 0, _, arguments => ([], arguments, false)
  | _ + 1, [], arguments => ([], arguments, false)
  | fuel + 1, '%' :: '%' :: rest, arguments =>
    let (out, left, used) := formatOnce fuel rest arguments
    (37 :: out, left, used)
  | fuel + 1, '%' :: kind :: rest, arguments =>
    let value := arguments.headD ""
    let (out, left, _) := formatOnce fuel rest (arguments.drop 1)
    let text := if kind = 'b' then unescaped 1 value else Text.Utf8.encode value
    (text ++ out, left, true)
  | fuel + 1, '\\' :: rest, arguments =>
    match escape? 0 rest with
    | some (b, rest) =>
      let (out, left, used) := formatOnce fuel rest arguments
      (b :: out, left, used)
    | none =>
      let (out, left, used) := formatOnce fuel rest arguments
      (92 :: out, left, used)
  | fuel + 1, c :: rest, arguments =>
    let (out, left, used) := formatOnce fuel rest arguments
    (Text.Utf8.encodeChars [c] ++ out, left, used)

def formatAll (format : String) (arguments : List String) : Nat → Bytes
  | 0 => []
  | fuel + 1 =>
    let (out, left, used) := formatOnce (format.length + 1) format.toList arguments
    if used && !left.isEmpty then out ++ formatAll format left fuel else out

end NetworkCa.Script
