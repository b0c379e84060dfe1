import NetworkCa.Certificate.Request

namespace NetworkCa

open Der (Oid)

structure Issuer where
  name : DistinguishedName
  keyIdentifier : Bytes
  deriving Repr, DecidableEq

structure CertificateBody where
  serial : Bytes
  issuer : DistinguishedName
  subject : DistinguishedName
  notBefore : Date
  notAfter : Date
  key : PublicKey
  extensions : List Extension
  deriving Repr, DecidableEq

def keyIdentifier (key : PublicKey) : Bytes := (Crypto.Sha256.digest key.bytes).take 20

namespace Extension

def authorityKey (identifier : Bytes) : Extension :=
  ⟨.authorityKeyIdentifier, false, Der.sequence [Der.write (.implicit 0) identifier]⟩

def subjectKey (identifier : Bytes) : Extension :=
  ⟨.subjectKeyIdentifier, false, Der.octetString identifier⟩

def constraints (isCa : Bool) : Extension := ⟨.basicConstraints, true, BasicConstraints.bytes isCa⟩

def keyUsages (usages : List KeyUsage) : List Extension :=
  if usages.isEmpty then [] else [⟨.keyUsage, true, KeyUsage.bytes usages⟩]

def extendedKeyUsages (usages : List ExtendedKeyUsage) : List Extension :=
  if usages.isEmpty then [] else [⟨.extendedKeyUsage, false, ExtendedKeyUsage.bytes usages⟩]

def altNames (names : List GeneralName) : List Extension :=
  if names.isEmpty then []
  else [⟨.subjectAltName, false, Der.sequence (names.map GeneralName.bytes)⟩]

end Extension

/-- The first and last day of a certificate: the day of the instant `now`, and `days` later. There
    are no such days where they are not both in the calendar. -/
def validity (now : Instant) (days : Nat) : Option (Date × Date) :=
  let first := now.date
  let last := Date.ofUnixDay (first.unixDay + days)
  if first.isInCalendar && last.isInCalendar then some (first, last) else none

namespace CertificateBody

def bytes (c : CertificateBody) (signature : Algorithm) : Bytes :=
  Der.sequence [Der.write (.explicit 0) (Der.integer 2), Der.integerOfBytes c.serial,
    signature.bytes, c.issuer.bytes,
    Der.sequence [Der.midnight c.notBefore, Der.midnight c.notAfter],
    c.subject.bytes, c.key.bytes,
    Der.write (.explicit 3) (Der.sequence (c.extensions.map Extension.bytes))]

def sign {κ : Type} (c : CertificateBody) (keys : KeyScheme κ) (pair : κ) (once : Nat) :
    Except MaterialFault Bytes :=
  keys.signed pair once (c.bytes (keys.kind pair).signatureAlgorithm)

def authorityUsages : List KeyUsage := [.digitalSignature, .keyCertSign, .crlSign]

def authority (subject : Subject) (key : PublicKey) (serial : Bytes) (window : Date × Date) :
    CertificateBody :=
  let name := DistinguishedName.ofSubject subject
  { serial, issuer := name, subject := name
    notBefore := window.1, notAfter := window.2
    key
    extensions := Extension.keyUsages authorityUsages ++
      [Extension.subjectKey (keyIdentifier key), Extension.constraints true] }

/-- The certificate that an authority makes from a wish. Names that the request asks for come
    before those that the extensions give. -/
def leaf (issuer : Issuer) (wish : SigningRequest.Wish) (e : LeafExtensions) (serial : Bytes)
    (window : Date × Date) : CertificateBody :=
  let own := if e.isCa then [Extension.subjectKey (keyIdentifier wish.key)] else []
  let authority :=
    if e.authorityKeyIdentifier then [Extension.authorityKey issuer.keyIdentifier] else []
  { serial, issuer := issuer.name, subject := wish.subject
    notBefore := window.1, notAfter := window.2
    key := wish.key
    extensions := authority ++
      Extension.altNames (wish.altNames ++ e.altNames.map GeneralName.ofAltName) ++
      Extension.keyUsages e.keyUsages ++ Extension.extendedKeyUsages e.extendedKeyUsages ++
      own ++ [Extension.constraints e.isCa] }

end CertificateBody

namespace SigningRequest

def body (subject : Subject) (key : PublicKey) : Bytes :=
  Der.sequence [Der.integer 0, (DistinguishedName.ofSubject subject).bytes, key.bytes,
    Der.write (.explicit 0) []]

def sign {κ : Type} (subject : Subject) (keys : KeyScheme κ) (pair : κ) (once : Nat) :
    Except MaterialFault Bytes :=
  keys.signed pair once (body subject (keys.publicKey pair))

def print (der : Bytes) : Bytes := (Pem.Block.mk label der).print

end SigningRequest

namespace Certificate

def label : String := "CERTIFICATE"

def print (der : Bytes) : Bytes := (Pem.Block.mk label der).print

def nameConstraints : Oid := .ofNumbers [2, 5, 29, 30]

def singleExtensions : List Oid :=
  [.basicConstraints, .subjectAltName, .keyUsage, .extendedKeyUsage, nameConstraints]

def maxPathLength : Nat := 255

/-- An authority, which its pair has to sign for again. -/
def asIssuer {κ : Type} (c : Certificate) (keys : KeyScheme κ) (pair : κ) :
    Except MaterialFault Issuer := do
  let name ← DistinguishedName.ofName c.subject
  if singleExtensions.any fun oid => (Extension.find c.extensions oid).length > 1 then
    throw .certificate
  match c.basicConstraints? with
  | some ⟨true, some length⟩ => if length > maxPathLength then throw .certificate
  | _ => pure ()
  match (c.extension? .subjectAltName).bind GeneralName.ofValue? with
  | some names => names.forM GeneralName.check
  | none => pure ()
  let identifier := (Extension.find c.extensions .subjectKeyIdentifier).findSome? fun e =>
    Der.readFront (Der.Reader.content .octetString) e.value
  if !keys.resigns pair c then throw .signature
  return ⟨name, identifier.getD (keyIdentifier (keys.publicKey pair))⟩

def issuerOfText {κ : Type} (text : String) (keys : KeyScheme κ) (pair : κ) :
    Except MaterialFault Issuer :=
  match Pem.first (Text.Utf8.encode text) with
  | .error _ => .error .certificate
  | .ok block =>
    match ofBytes? block.contents with
    | none => .error .certificate
    | some c => c.asIssuer keys pair

end Certificate

end NetworkCa
