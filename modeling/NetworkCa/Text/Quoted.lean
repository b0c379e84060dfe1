import NetworkCa.Text.Unseen

namespace NetworkCa.Text

def hexDigits (n : Nat) : List Char := Nat.toDigits 16 n

def escaped (quote : Char) (c : Char) : List Char :=
  if c = '\x00' then ['\\', '0']
  else if c = '\t' then ['\\', 't']
  else if c = '\n' then ['\\', 'n']
  else if c = '\r' then ['\\', 'r']
  else if c = '\\' then ['\\', '\\']
  else if c = quote then ['\\', c]
  else if isUnseen c then ['\\', 'u', '\x7b'] ++ hexDigits c.toNat ++ ['\x7d']
  else [c]

def quoteChar (c : Char) : String := String.ofList ('\'' :: escaped '\'' c ++ ['\''])

def quote (s : String) : String :=
  String.ofList ('"' :: s.toList.flatMap (escaped '"') ++ ['"'])

end NetworkCa.Text
