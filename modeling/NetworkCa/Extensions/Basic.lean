import NetworkCa.Address.Reader

namespace NetworkCa

inductive KeyUsage where
  | digitalSignature
  | nonRepudiation
  | keyEncipherment
  | dataEncipherment
  | keyAgreement
  | keyCertSign
  | crlSign
  | encipherOnly
  | decipherOnly
  deriving Repr, DecidableEq

namespace KeyUsage

def all : List KeyUsage :=
  [.digitalSignature, .nonRepudiation, .keyEncipherment, .dataEncipherment, .keyAgreement,
    .keyCertSign, .crlSign, .encipherOnly, .decipherOnly]

def name : KeyUsage → String
  | .digitalSignature => "digitalSignature"
  | .nonRepudiation => "nonRepudiation"
  | .keyEncipherment => "keyEncipherment"
  | .dataEncipherment => "dataEncipherment"
  | .keyAgreement => "keyAgreement"
  | .keyCertSign => "keyCertSign"
  | .crlSign => "cRLSign"
  | .encipherOnly => "encipherOnly"
  | .decipherOnly => "decipherOnly"

def ofName? (s : String) : Option KeyUsage := all.find? (·.name = s)

def bit (u : KeyUsage) : Nat := all.idxOf u

end KeyUsage

inductive ExtendedKeyUsage where
  | serverAuth
  | clientAuth
  | codeSigning
  | emailProtection
  | timeStamping
  | ocspSigning
  deriving Repr, DecidableEq

namespace ExtendedKeyUsage

def all : List ExtendedKeyUsage :=
  [.serverAuth, .clientAuth, .codeSigning, .emailProtection, .timeStamping, .ocspSigning]

def name : ExtendedKeyUsage → String
  | .serverAuth => "serverAuth"
  | .clientAuth => "clientAuth"
  | .codeSigning => "codeSigning"
  | .emailProtection => "emailProtection"
  | .timeStamping => "timeStamping"
  | .ocspSigning => "OCSPSigning"

def ofName? (s : String) : Option ExtendedKeyUsage := all.find? (·.name = s)

end ExtendedKeyUsage

inductive AltName where
  | dns (name : String)
  | ip (address : Address)
  deriving Repr, DecidableEq

def AltName.print : AltName → String
  | .dns name => "DNS:" ++ name
  | .ip address => "IP:" ++ address.print

structure LeafExtensions where
  isCa : Bool
  keyUsages : List KeyUsage
  extendedKeyUsages : List ExtendedKeyUsage
  altNames : List AltName
  authorityKeyIdentifier : Bool
  deriving Repr, DecidableEq

def LeafExtensions.default : LeafExtensions where
  isCa := false
  keyUsages := [.digitalSignature, .keyEncipherment]
  extendedKeyUsages := [.serverAuth, .clientAuth]
  altNames := []
  authorityKeyIdentifier := true

end NetworkCa
