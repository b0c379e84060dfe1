import NetworkCa.Certificate.Basic

namespace NetworkCa

open Der (Oid)

structure BasicConstraints where
  isCa : Bool
  pathLength : Option Nat
  deriving Repr, DecidableEq

namespace BasicConstraints

def truthOf (e : Der.Element) : Option Bool :=
  match e.content with
  | [b] => if Der.Tag.boolean.accepts e.tag then some (b ≠ 0) else none
  | _ => none

def numberOf (e : Der.Element) : Option Nat :=
  let n := Der.natOfBytes e.content
  if Der.Tag.integer.accepts e.tag && !e.content.isEmpty && n < 4294967296 then some n else none

def ofElements : List Der.Element → Option BasicConstraints
  | [] => some ⟨false, none⟩
  | [e] => ((truthOf e).map fun b => ⟨b, none⟩) <|> ((numberOf e).map fun n => ⟨false, some n⟩)
  | [e, l] => do return ⟨← truthOf e, some (← numberOf l)⟩
  | _ => none

def ofValue? (value : Bytes) : Option BasicConstraints := do
  let elements ← Der.readFront
    (Der.Reader.inside .sequence do
      let elements ← Der.Reader.zeroOrMore Der.Reader.element
      if ← Der.Reader.atEnd then return elements else failure) value
  ofElements elements

def bytes (isCa : Bool) : Bytes := Der.sequence (if isCa then [Der.boolean true] else [])

end BasicConstraints

structure GeneralName where
  tag : Der.Tag
  content : Bytes
  deriving Repr, DecidableEq

namespace GeneralName

def dnsNumber : Nat := 2

def addressNumber : Nat := 7

def ofAltName : AltName → GeneralName
  | .dns name => ⟨.implicit dnsNumber, Text.Utf8.encode name⟩
  | .ip address => ⟨.implicit addressNumber, address.octets⟩

def bytes (n : GeneralName) : Bytes := Der.write n.tag n.content

def listReader : Der.Reader (List GeneralName) :=
  Der.Reader.inside .sequence do
    let elements ← Der.Reader.zeroOrMore Der.Reader.element
    return elements.map fun e => ⟨e.tag, e.content⟩

def print? (n : GeneralName) : Option String :=
  if n.tag.number = dnsNumber then some ("DNS:" ++ Text.Utf8.decodeLossy n.content)
  else if n.tag.number = addressNumber then some ("IP:" ++ Text.Hex.lower n.content)
  else none

end GeneralName

namespace KeyUsage

def bitsOf (usages : List KeyUsage) : Nat :=
  usages.foldl (fun bits u => bits ||| Nat.pow 2 (15 - u.bit)) 0

def trailingZeros (b : Nat) : Nat := ((List.range 8).find? fun n => b / Nat.pow 2 n % 2 = 1).getD 0

def bytes (usages : List KeyUsage) : Bytes :=
  let bits := bitsOf usages
  let used := if bits % 256 = 0 then [bits / 256] else [bits / 256, bits % 256]
  Der.write .bitString ((trailingZeros (used.getLast?.getD 0) :: used).map UInt8.ofNat)

def ofValue? (value : Bytes) : Option (List KeyUsage) := do
  let (_, bytes) ← Der.readFront Der.Reader.bitString value
  return all.filter fun u =>
    match bytes[u.bit / 8]? with
    | some b => b.toNat / Nat.pow 2 (7 - u.bit % 8) % 2 = 1
    | none => false

def title : KeyUsage → String
  | .digitalSignature => "Digital Signature"
  | .nonRepudiation => "Non Repudiation"
  | .keyEncipherment => "Key Encipherment"
  | .dataEncipherment => "Data Encipherment"
  | .keyAgreement => "Key Agreement"
  | .keyCertSign => "Key Cert Sign"
  | .crlSign => "CRL Sign"
  | .encipherOnly => "Encipher Only"
  | .decipherOnly => "Decipher Only"

end KeyUsage

namespace ExtendedKeyUsage

def bytes (usages : List ExtendedKeyUsage) : Bytes :=
  Der.sequence (usages.map fun u => Der.objectIdentifier u.oid)

def oidsOfValue? (value : Bytes) : Option (List Oid) :=
  Der.readFront (Der.Reader.inside .sequence (Der.Reader.zeroOrMore Der.Reader.objectIdentifier))
    value

end ExtendedKeyUsage

namespace Certificate

def extension? (c : Certificate) (oid : Oid) : Option Bytes :=
  match Extension.find c.extensions oid with
  | [e] => some e.value
  | _ => none

def basicConstraints? (c : Certificate) : Option BasicConstraints :=
  (c.extension? .basicConstraints).bind BasicConstraints.ofValue?

def isCa (c : Certificate) : Bool := (c.basicConstraints?.map (·.isCa)).getD false

def keyUsages? (c : Certificate) : Option (List KeyUsage) :=
  (c.extension? .keyUsage).bind KeyUsage.ofValue?

def extendedKeyUsages? (c : Certificate) : Option (List ExtendedKeyUsage) := do
  let oids ← (c.extension? .extendedKeyUsage).bind ExtendedKeyUsage.oidsOfValue?
  return ExtendedKeyUsage.all.filter fun u => oids.contains u.oid

def altNames? (c : Certificate) : Option (List GeneralName) := do
  Der.readFront GeneralName.listReader (← c.extension? .subjectAltName)

def hasAuthorityKeyIdentifier (c : Certificate) : Bool :=
  !(Extension.find c.extensions .authorityKeyIdentifier).isEmpty

def isSignedBy (c issuer : Certificate) : Bool :=
  issuer.publicKey.confirms c.signatureAlgorithm c.signed c.signature

end Certificate

end NetworkCa
