import NetworkCa.Signing.Basic
import NetworkCa.Signing.Entropy
import NetworkCa.Text.Blank

namespace NetworkCa.Serial

def freshLength : Nat := 20

def ofBlock (block : Bytes) : Bytes :=
  match block.take freshLength with
  | [] => [1]
  | first :: rest => max (first &&& 0x7F) 1 :: rest

def incrementReversed : Bytes → Bytes
  | [] => [1]
  | b :: rest => if b = 255 then 0 :: incrementReversed rest else (b + 1) :: rest

def increment (serial : Bytes) : Bytes := (incrementReversed serial.reverse).reverse

def print (serial : Bytes) : String := Text.Hex.upper serial ++ "\n"

def parse (text : String) : Except Text.Hex.Fault Bytes :=
  Text.Hex.decode (Text.Utf8.encodeChars (Text.trim text.toList))

end NetworkCa.Serial
