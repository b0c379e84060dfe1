import NetworkCa.Certificate.Extensions
import NetworkCa.Pem.Reader

namespace NetworkCa

inductive MaterialFault where
  | certificate
  | request
  | keyPair
  | pem (fault : Pem.Fault)
  | signature
  | unsupportedAlgorithm
  | unsupportedExtension
  | nameType
  | addressLength (bytes : Nat)
  | badText (kind text : String)
  deriving Repr, DecidableEq

def MaterialFault.message : MaterialFault → String
  | .certificate => "Could not parse certificate"
  | .request => "Could not parse certificate signing request"
  | .keyPair => "Could not parse key pair"
  | .pem fault => s!"PEM error: {fault.message}"
  | .signature => "Unspecified ring error"
  | .unsupportedAlgorithm => "The requested signature algorithm is not supported"
  | .unsupportedExtension => "Unsupported extension requested in CSR"
  | .nameType => "Invalid subject alternative name type"
  | .addressLength bytes => s!"Invalid IP address octet length of {bytes} bytes"
  | .badText kind text => s!"Invalid {kind}: '{text}'"

namespace NamePart

def isPrintable (c : Char) : Bool :=
  c.isAlphanum || " '()+,-./:=?".toList.contains c

def isBasicPlane : Bytes → Bool
  | high :: low :: rest =>
    let unit := high.toNat * 256 + low.toNat
    (unit < 0xD800 || (0xE000 ≤ unit && unit < 0xFFFF)) && isBasicPlane rest
  | rest => rest.isEmpty

def isWideText : Bytes → Bool
  | a :: b :: c :: d :: rest =>
    (Nat.isValidChar (Der.natOfBytes [a, b, c, d])) && isWideText rest
  | rest => rest.isEmpty

def checkText (value : Der.Element) : Except MaterialFault Unit := do
  let text : Except MaterialFault String :=
    match Text.Utf8.decode? value.content with
    | some s => .ok s
    | none => .error .certificate
  let check (kind : String) (allowed : Char → Bool) : Except MaterialFault Unit := do
    let s ← text
    if s.toList.all allowed then return () else throw (.badText kind s)
  let wide (kind encoding : String) (good : Bool) : Except MaterialFault Unit :=
    if good then .ok () else .error (.badText kind s!"Invalid {encoding} encoding")
  match value.tag.number with
  | 12 => let _ ← text
  | 19 => check "PrintableString" isPrintable
  | 20 => check "TeletexString" fun c => 0x20 ≤ c.toNat && c.toNat ≤ 0x7F
  | 22 => check "IA5String" fun c => c.toNat < 128
  | 28 => wide "UniversalString" "UTF-32" (isWideText value.content)
  | 30 => wide "BMPString" "UTF-16" (isBasicPlane value.content)
  | _ => throw .certificate

end NamePart

/-- A read name as a name to issue. Sets of several parts and values that are no text have none. -/
def DistinguishedName.ofName (name : Name) : Except MaterialFault DistinguishedName := do
  let parts ← name.sets.mapM fun parts =>
    match parts with
    | [part] => do
      if part.oid.isShort then
        NamePart.checkText part.value
        return part
      else throw .certificate
    | _ => throw .certificate
  return .ofParts parts

namespace GeneralName

def isReadable (n : GeneralName) : Bool :=
  n.tag.tagClass = .context &&
    match n.tag.number with
    | 0 => (Der.readFront Der.Reader.objectIdentifier n.content).isSome
    | 1 => (Text.Utf8.decode? n.content).isSome
    | 2 => (Text.Utf8.decode? n.content).isSome
    | 3 => true
    | 4 => (Der.readAll Name.reader n.content).isSome
    | 5 => true
    | 6 => (Text.Utf8.decode? n.content).isSome
    | 7 => true
    | 8 => true
    | _ => false

def ofValue? (value : Bytes) : Option (List GeneralName) := do
  let elements ← Der.readFront
    (Der.Reader.inside .sequence do
      let elements ← Der.Reader.zeroOrMore Der.Reader.element
      if ← Der.Reader.atEnd then return elements else failure) value
  let names := elements.map fun e => (⟨e.tag, e.content⟩ : GeneralName)
  if names.all isReadable then some names else none

def otherNameReader : Der.Reader Bytes := do
  let _ ← Der.Reader.objectIdentifier
  Der.Reader.inside (.explicit 0) (Der.Reader.content .utf8String)

def check (n : GeneralName) : Except MaterialFault Unit :=
  match n.tag.number with
  | 0 =>
    match Der.readFront otherNameReader n.content with
    | some text => if (Text.Utf8.decode? text).isSome then .ok () else .error .certificate
    | none => .error .certificate
  | 7 =>
    if n.content.length = 4 || n.content.length = 16 then .ok ()
    else .error (.addressLength n.content.length)
  | 1 | 2 | 6 =>
    if n.content.all (· < 128) then .ok ()
    else .error (.badText "IA5String" (Text.Utf8.decodeLossy n.content))
  | _ => .error .nameType

end GeneralName

end NetworkCa
