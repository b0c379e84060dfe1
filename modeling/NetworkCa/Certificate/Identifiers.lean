import NetworkCa.Der.Oid
import NetworkCa.Extensions.Basic
import NetworkCa.Subject.Basic

namespace NetworkCa

open Der (Oid)

namespace Der.Oid

def ecPublicKey : Oid := .ofNumbers [1, 2, 840, 10045, 2, 1]

def prime256 : Oid := .ofNumbers [1, 2, 840, 10045, 3, 1, 7]

def secp384 : Oid := .ofNumbers [1, 3, 132, 0, 34]

def ecdsaWithSha256 : Oid := .ofNumbers [1, 2, 840, 10045, 4, 3, 2]

def ecdsaWithSha384 : Oid := .ofNumbers [1, 2, 840, 10045, 4, 3, 3]

def rsaEncryption : Oid := .ofNumbers [1, 2, 840, 113549, 1, 1, 1]

def sha256WithRsa : Oid := .ofNumbers [1, 2, 840, 113549, 1, 1, 11]

def sha384WithRsa : Oid := .ofNumbers [1, 2, 840, 113549, 1, 1, 12]

def sha512WithRsa : Oid := .ofNumbers [1, 2, 840, 113549, 1, 1, 13]

def ed25519 : Oid := .ofNumbers [1, 3, 101, 112]

def subjectKeyIdentifier : Oid := .ofNumbers [2, 5, 29, 14]

def keyUsage : Oid := .ofNumbers [2, 5, 29, 15]

def subjectAltName : Oid := .ofNumbers [2, 5, 29, 17]

def basicConstraints : Oid := .ofNumbers [2, 5, 29, 19]

def authorityKeyIdentifier : Oid := .ofNumbers [2, 5, 29, 35]

def extendedKeyUsage : Oid := .ofNumbers [2, 5, 29, 37]

def extensionRequest : Oid := .ofNumbers [1, 2, 840, 113549, 1, 9, 14]

end Der.Oid

def ExtendedKeyUsage.oid : ExtendedKeyUsage → Oid
  | .serverAuth => .ofNumbers [1, 3, 6, 1, 5, 5, 7, 3, 1]
  | .clientAuth => .ofNumbers [1, 3, 6, 1, 5, 5, 7, 3, 2]
  | .codeSigning => .ofNumbers [1, 3, 6, 1, 5, 5, 7, 3, 3]
  | .emailProtection => .ofNumbers [1, 3, 6, 1, 5, 5, 7, 3, 4]
  | .timeStamping => .ofNumbers [1, 3, 6, 1, 5, 5, 7, 3, 8]
  | .ocspSigning => .ofNumbers [1, 3, 6, 1, 5, 5, 7, 3, 9]

def Der.Oid.anyExtendedKeyUsage : Oid := .ofNumbers [2, 5, 29, 37, 0]

def Attribute.oid : Attribute → Oid
  | .country => .ofNumbers [2, 5, 4, 6]
  | .state => .ofNumbers [2, 5, 4, 8]
  | .locality => .ofNumbers [2, 5, 4, 7]
  | .organization => .ofNumbers [2, 5, 4, 10]
  | .organizationalUnit => .ofNumbers [2, 5, 4, 11]
  | .commonName => .ofNumbers [2, 5, 4, 3]

def Der.Oid.shortNames : List (Oid × String) :=
  Attribute.all.map (fun a => (a.oid, a.shortName)) ++
    [(.ofNumbers [2, 5, 4, 4], "surname"), (.ofNumbers [2, 5, 4, 5], "serialNumber"),
      (.ofNumbers [2, 5, 4, 9], "streetAddress"), (.ofNumbers [2, 5, 4, 12], "title"),
      (.ofNumbers [2, 5, 4, 17], "postalCode"), (.ofNumbers [2, 5, 4, 42], "givenName"),
      (.ofNumbers [1, 2, 840, 113549, 1, 9, 1], "Email"),
      (.ofNumbers [0, 9, 2342, 19200300, 100, 1, 1], "uid"),
      (.ofNumbers [0, 9, 2342, 19200300, 100, 1, 25], "DC")]

end NetworkCa
