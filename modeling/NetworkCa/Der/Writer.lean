import NetworkCa.Der.Tag

namespace NetworkCa.Der

def bytesOfNat (n : Nat) : Bytes :=
  if _h : n = 0 then [] else bytesOfNat (n / 256) ++ [UInt8.ofNat n]
termination_by n
decreasing_by omega

def natOfBytes (bytes : Bytes) : Nat := bytes.foldl (fun n b => 256 * n + b.toNat) 0

/-- The seven-bit digits of a number, the highest first, each but the last with a mark. -/
def digits128 (n : Nat) : Bytes :=
  let rec high (n : Nat) : Bytes :=
    if _h : n = 0 then [] else high (n / 128) ++ [UInt8.ofNat (n % 128 + 128)]
  termination_by n
  decreasing_by omega
  high (n / 128) ++ [UInt8.ofNat (n % 128)]

def tagBytes (t : Tag) : Bytes :=
  let head := 64 * t.tagClass.bits + if t.constructed then 32 else 0
  if t.number < 31 then [UInt8.ofNat (head + t.number)]
  else UInt8.ofNat (head + 31) :: digits128 t.number

def lengthBytes (n : Nat) : Bytes :=
  if n < 128 then [UInt8.ofNat n]
  else
    let bytes := bytesOfNat n
    UInt8.ofNat (128 + bytes.length) :: bytes

def write (t : Tag) (content : Bytes) : Bytes :=
  tagBytes t ++ lengthBytes content.length ++ content

def sequence (parts : List Bytes) : Bytes := write .sequence parts.flatten

def set (parts : List Bytes) : Bytes := write .set parts.flatten

def boolean (b : Bool) : Bytes := write .boolean [if b then 255 else 0]

/-- The content of a positive integer: no leading zeros, except one before a high first bit. -/
def positiveContent (bytes : Bytes) : Bytes :=
  match bytes.dropWhile (· == 0) with
  | [] => [0]
  | b :: rest => if b < 128 then b :: rest else 0 :: b :: rest

def integerOfBytes (bytes : Bytes) : Bytes := write .integer (positiveContent bytes)

def integer (n : Nat) : Bytes := integerOfBytes (bytesOfNat n)

def bitString (bytes : Bytes) : Bytes := write .bitString (0 :: bytes)

def octetString (bytes : Bytes) : Bytes := write .octetString bytes

def utf8String (s : String) : Bytes := write .utf8String (Text.Utf8.encode s)

end NetworkCa.Der
