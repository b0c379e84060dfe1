import NetworkCa.Certificate.PrivateKey

namespace NetworkCa

open Der (Oid)

structure SigningRequest where
  subject : Name
  publicKey : PublicKey
  /-- The extensions that the first attribute for them asks for. -/
  extensions : List Extension
  signatureAlgorithm : Algorithm
  signed : Bytes
  signature : Bytes
  deriving Repr, DecidableEq

namespace SigningRequest

def label : String := "CERTIFICATE REQUEST"

def attributeReader : Der.Reader (Option (List Extension)) :=
  Der.Reader.inside .sequence do
    let oid ← Der.Reader.objectIdentifier
    let (tag, _) ← Der.Reader.header
    if tag.number ≠ Der.Tag.set.number then failure
    if oid = .extensionRequest then return some (← Extension.listReader) else return none

def attributesReader : Der.Reader (List Extension) := do
  let (tag, _) ← Der.Reader.header
  if tag.number ≠ 0 then failure
  let attributes ← Der.Reader.zeroOrMore attributeReader
  if ← Der.Reader.atEnd then return (attributes.findSome? id).getD [] else failure

def bodyReader : Der.Reader SigningRequest :=
  Der.Reader.inside .sequence do
    let version ← Der.Reader.content .integer
    if version.isEmpty then failure
    let subject ← Name.reader
    let publicKey ← PublicKey.reader
    let extensions ← attributesReader
    return { subject, publicKey, extensions
             signatureAlgorithm := ⟨⟨[]⟩, none⟩, signed := [], signature := [] }

def reader : Der.Reader SigningRequest :=
  Der.Reader.inside .sequence do
    let (body, signed) ← Der.Reader.withBytes bodyReader
    let signatureAlgorithm ← Algorithm.reader
    let (_, signature) ← Der.Reader.bitString
    return { body with signatureAlgorithm, signed, signature }

def ofBytes? (bytes : Bytes) : Option SigningRequest := Der.readFront reader bytes

def isConfirmedBy {κ : Type} (r : SigningRequest) (keys : KeyScheme κ) : Bool :=
  keys.confirms r.publicKey r.signatureAlgorithm r.signed r.signature

def verifies (r : SigningRequest) : Bool := r.isConfirmedBy .p256

def ofText? (text : String) : Option SigningRequest :=
  match Pem.first (Text.Utf8.encode text) with
  | .ok block => ofBytes? block.contents
  | .error _ => none

def grantedNames (e : Extension) : Except MaterialFault (List GeneralName) :=
  if e.oid = .keyUsage then
    if (Der.readFront Der.Reader.bitString e.value).isSome then .ok []
    else .error .unsupportedExtension
  else if e.oid = .extendedKeyUsage then
    match ExtendedKeyUsage.oidsOfValue? e.value with
    | none => .error .unsupportedExtension
    | some oids =>
      let known := Oid.anyExtendedKeyUsage :: ExtendedKeyUsage.all.map (·.oid)
      if oids.all known.contains then .ok [] else .error .unsupportedExtension
  else if e.oid = .subjectAltName then
    match GeneralName.ofValue? e.value with
    | none => .error .unsupportedExtension
    | some names => do
      names.forM GeneralName.check
      return names
  else .error .unsupportedExtension

structure Wish where
  subject : DistinguishedName
  altNames : List GeneralName
  key : PublicKey
  deriving Repr, DecidableEq

/-- What a request asks for. Its key is taken to be of the kind that the signature names. -/
def wish {κ : Type} (r : SigningRequest) (keys : KeyScheme κ) : Except MaterialFault Wish := do
  if !r.isConfirmedBy keys then throw .signature
  match KeyKind.ofSignature? r.signatureAlgorithm.oid with
  | none => throw .unsupportedAlgorithm
  | some kind =>
    let subject ← DistinguishedName.ofName r.subject
    let names ← r.extensions.mapM grantedNames
    return ⟨subject, names.flatten, ⟨kind.keyAlgorithm, r.publicKey.key⟩⟩

def wishOfText {κ : Type} (text : String) (keys : KeyScheme κ) : Except MaterialFault Wish :=
  match ofText? text with
  | none => .error .request
  | some r => r.wish keys

end SigningRequest

end NetworkCa
