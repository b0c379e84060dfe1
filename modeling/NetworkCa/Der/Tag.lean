import NetworkCa.Text.Utf8

namespace NetworkCa.Der

inductive TagClass where
  | universal
  | application
  | context
  | privateUse
  deriving Repr, DecidableEq

def TagClass.bits : TagClass → Nat
  | .universal => 0
  | .application => 1
  | .context => 2
  | .privateUse => 3

def TagClass.ofByte (b : UInt8) : TagClass :=
  match b.toNat / 64 with
  | 0 => .universal
  | 1 => .application
  | 2 => .context
  | _ => .privateUse

structure Tag where
  tagClass : TagClass
  number : Nat
  constructed : Bool
  deriving Repr, DecidableEq

namespace Tag

def simple (number : Nat) : Tag := ⟨.universal, number, false⟩

def boolean : Tag := simple 1

def integer : Tag := simple 2

def bitString : Tag := simple 3

def octetString : Tag := simple 4

def null : Tag := simple 5

def objectIdentifier : Tag := simple 6

def utf8String : Tag := simple 12

def utcTime : Tag := simple 23

def generalizedTime : Tag := simple 24

def sequence : Tag := ⟨.universal, 16, true⟩

def set : Tag := ⟨.universal, 17, true⟩

def explicit (number : Nat) : Tag := ⟨.context, number, true⟩

def implicit (number : Nat) : Tag := ⟨.context, number, false⟩

/-- Is a value with the tag `found` readable as one with the tag `t`? Only its number and its form
    count, since the place of a value tells its class. -/
def accepts (t found : Tag) : Bool :=
  t.number = found.number && (t.constructed || !found.constructed)

end Tag

structure Element where
  tag : Tag
  content : Bytes
  deriving Repr, DecidableEq

end NetworkCa.Der
