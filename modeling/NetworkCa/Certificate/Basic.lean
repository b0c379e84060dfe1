import NetworkCa.Certificate.Name
import NetworkCa.Certificate.Time
import NetworkCa.Crypto.Signature

namespace NetworkCa

open Der (Oid)

structure Algorithm where
  oid : Oid
  parameters : Option Der.Element
  deriving Repr, DecidableEq

structure PublicKey where
  algorithm : Algorithm
  key : Bytes
  deriving Repr, DecidableEq

structure Extension where
  oid : Oid
  critical : Bool
  value : Bytes
  deriving Repr, DecidableEq

structure Certificate where
  subject : Name
  issuer : Name
  serial : Bytes
  notBefore : Instant
  notAfter : Instant
  publicKey : PublicKey
  extensions : List Extension
  signatureAlgorithm : Oid
  /-- The bytes that the signature is about. -/
  signed : Bytes
  signature : Bytes
  deriving Repr, DecidableEq

namespace Algorithm

def reader : Der.Reader Algorithm :=
  Der.Reader.inside .sequence do
    let oid ← Der.Reader.objectIdentifier
    if ← Der.Reader.atEnd then return ⟨oid, none⟩ else return ⟨oid, some (← Der.Reader.element)⟩

def bytes (a : Algorithm) : Bytes :=
  let parameters := a.parameters.map fun e => Der.write e.tag e.content
  Der.sequence [Der.objectIdentifier a.oid, parameters.getD []]

end Algorithm

namespace PublicKey

def point? (k : PublicKey) : Option Crypto.P256.Point :=
  match k.algorithm.parameters with
  | some parameters =>
    if Der.Tag.objectIdentifier.accepts parameters.tag && parameters.content = Oid.prime256.content
    then Crypto.P256.Point.ofBytes? k.key
    else none
  | none => none

def confirms (k : PublicKey) (algorithm : Oid) (message signature : Bytes) : Bool :=
  match k.point?, Crypto.Signature.ofBytes? signature with
  | some point, some sig => algorithm = Oid.ecdsaWithSha256 && sig.verifies point message
  | _, _ => false

def reader : Der.Reader PublicKey :=
  Der.Reader.inside .sequence do
    let algorithm ← Algorithm.reader
    let (_, key) ← Der.Reader.bitString
    return ⟨algorithm, key⟩

def bytes (k : PublicKey) : Bytes := Der.sequence [k.algorithm.bytes, Der.bitString k.key]

end PublicKey

namespace Extension

/-- A truth value of which every byte but zero is true, or none if there is no such value. -/
def criticalReader : Der.Reader Bool := do
  match ← Der.Reader.maybe (Der.Reader.content .boolean) with
  | some [b] => return b ≠ 0
  | some _ => failure
  | none => return false

def reader : Der.Reader Extension :=
  Der.Reader.inside .sequence do
    return ⟨← Der.Reader.objectIdentifier, ← criticalReader, ← Der.Reader.content .octetString⟩

def listReader : Der.Reader (List Extension) :=
  Der.Reader.filling .sequence (Der.Reader.zeroOrMore reader)

def find (extensions : List Extension) (oid : Oid) : List Extension :=
  extensions.filter (·.oid = oid)

def bytes (e : Extension) : Bytes :=
  let critical := if e.critical then [Der.boolean true] else []
  Der.sequence (Der.objectIdentifier e.oid :: critical ++ [Der.octetString e.value])

end Extension

namespace Certificate

/-- A version, which may be left out. It counts for nothing here. -/
def versionReader : Der.Reader Unit := do
  match Der.readFront Der.Reader.header (← get) with
  | some (tag, _) =>
    if tag.number = 0 then
      let _ ← Der.Reader.header
      let version ← Der.Reader.content .integer
      if version.isEmpty || Der.natOfBytes version ≥ 4294967296 then failure
  | none => failure

def serialReader : Der.Reader Bytes := do
  let e ← Der.Reader.element
  if e.tag.number = Der.Tag.integer.number then return e.content else failure

def uniqueIdReader (number : Nat) : Der.Reader Unit := do
  match Der.readFront Der.Reader.header (← get) with
  | some (tag, _) =>
    if tag.tagClass = .context && tag.number = number then
      let e ← Der.Reader.element
      if (Der.Reader.bitsOfContent e.content).isNone then failure
  | none => pure ()

def extensionsReader : Der.Reader (List Extension) := do
  if ← Der.Reader.atEnd then return []
  let (tag, _) ← Der.Reader.header
  if tag.number ≠ 3 then failure
  let extensions ← Extension.listReader
  if ← Der.Reader.atEnd then return extensions else failure

def bodyReader : Der.Reader Certificate :=
  Der.Reader.inside .sequence do
    versionReader
    let serial ← serialReader
    let _ ← Algorithm.reader
    let issuer ← Name.reader
    let (notBefore, notAfter) ← Der.Reader.inside .sequence do return (← Der.time, ← Der.time)
    let subject ← Name.reader
    let publicKey ← PublicKey.reader
    uniqueIdReader 1
    uniqueIdReader 2
    let extensions ← extensionsReader
    return { subject, issuer, serial, notBefore, notAfter, publicKey, extensions
             signatureAlgorithm := ⟨[]⟩, signed := [], signature := [] }

def reader : Der.Reader Certificate :=
  Der.Reader.inside .sequence do
    let (body, signed) ← Der.Reader.withBytes bodyReader
    let algorithm ← Algorithm.reader
    let (_, signature) ← Der.Reader.bitString
    return { body with signatureAlgorithm := algorithm.oid, signed, signature }

def ofBytes? (bytes : Bytes) : Option Certificate := Der.readFront reader bytes

end Certificate

end NetworkCa
