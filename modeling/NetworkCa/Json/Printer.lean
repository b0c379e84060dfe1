import NetworkCa.Text.Hex

namespace NetworkCa.Json

def escaped (c : Char) : List Char :=
  if c = '"' then ['\\', '"']
  else if c = '\\' then ['\\', '\\']
  else if c = '\x08' then ['\\', 'b']
  else if c = '\x0c' then ['\\', 'f']
  else if c = '\n' then ['\\', 'n']
  else if c = '\r' then ['\\', 'r']
  else if c = '\t' then ['\\', 't']
  else if c.toNat < 0x20 then
    ['\\', 'u', '0', '0', Text.Hex.lowerDigit (c.toNat / 16), Text.Hex.lowerDigit (c.toNat % 16)]
  else [c]

def quoted (s : String) : List Char := '"' :: s.toList.flatMap escaped ++ ['"']

def commaSeparated (parts : List (List Char)) : List Char := [','].intercalate parts

def object (members : List (String × List Char)) : List Char :=
  '\x7b' :: commaSeparated (members.map fun (key, value) => quoted key ++ ':' :: value) ++ ['\x7d']

def array (elements : List (List Char)) : List Char := '[' :: commaSeparated elements ++ [']']

end NetworkCa.Json
