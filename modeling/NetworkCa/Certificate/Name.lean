import NetworkCa.Certificate.Identifiers
import NetworkCa.Der.Reader

namespace NetworkCa

open Der (Oid)

structure NamePart where
  oid : Oid
  value : Der.Element
  deriving Repr, DecidableEq

structure Name where
  sets : List (List NamePart)
  deriving Repr, DecidableEq

namespace NamePart

def textTypes : List Nat := [7, 12, 18, 19, 20, 21, 22, 25, 26, 27, 30]

def valueText (part : NamePart) : Option String :=
  if textTypes.contains part.value.tag.number then Text.Utf8.decode? part.value.content
  else some (Text.Hex.upper part.value.content)

def label (part : NamePart) : String :=
  (Oid.shortNames.lookup part.oid).getD s!"OID({part.oid.text})"

def print (part : NamePart) : Option String := part.valueText.map fun v => part.label ++ "=" ++ v

def ofAttribute (a : Attribute) (value : String) : NamePart :=
  ⟨a.oid, ⟨.utf8String, Text.Utf8.encode value⟩⟩

def bytes (part : NamePart) : Bytes :=
  Der.sequence [Der.objectIdentifier part.oid, Der.write part.value.tag part.value.content]

def reader : Der.Reader NamePart :=
  Der.Reader.inside .sequence do return ⟨← Der.Reader.objectIdentifier, ← Der.Reader.element⟩

end NamePart

namespace Name

def printSet (parts : List NamePart) : Option String := do
  if parts.isEmpty then none
  return " + ".intercalate (← parts.mapM NamePart.print)

def print (name : Name) : String :=
  match name.sets.mapM printSet with
  | some texts => ", ".intercalate texts
  | none => ""

def reader : Der.Reader Name :=
  Der.Reader.inside .sequence do
    let part := Der.Reader.inside .set (Der.Reader.zeroOrMore NamePart.reader)
    return ⟨← Der.Reader.zeroOrMore part⟩

end Name

/-- A name with one part to a set and at most one part of a kind. -/
structure DistinguishedName where
  parts : List NamePart
  deriving Repr, DecidableEq

namespace DistinguishedName

def empty : DistinguishedName := ⟨[]⟩

/-- Adds a part at the end, or puts its value in the place of the part of its kind. -/
def push (name : DistinguishedName) (part : NamePart) : DistinguishedName :=
  if name.parts.any (·.oid = part.oid) then
    ⟨name.parts.map fun old => if old.oid = part.oid then part else old⟩
  else ⟨name.parts ++ [part]⟩

def ofParts (parts : List NamePart) : DistinguishedName := parts.foldl push empty

def ofSubject (s : Subject) : DistinguishedName :=
  ofParts (s.attributes.map fun (a, value) => .ofAttribute a value)

def name (d : DistinguishedName) : Name := ⟨d.parts.map ([·])⟩

def bytes (d : DistinguishedName) : Bytes :=
  Der.sequence (d.parts.map fun part => Der.set [part.bytes])

end DistinguishedName

end NetworkCa
