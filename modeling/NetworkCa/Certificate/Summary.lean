import NetworkCa.Certificate.Extensions

namespace NetworkCa

structure CertificateSummary where
  subject : String
  issuer : String
  serial : String
  notBefore : Instant
  notAfter : Instant
  isCa : Bool
  signatureAlgorithm : String
  fingerprint : String
  deriving Repr, DecidableEq

namespace CertificateSummary

def ofBytes? (bytes : Bytes) : Option CertificateSummary :=
  (Certificate.ofBytes? bytes).map fun c =>
    { subject := c.subject.print
      issuer := c.issuer.print
      serial := Text.Hex.colons Text.Hex.lowerDigit c.serial
      notBefore := c.notBefore
      notAfter := c.notAfter
      isCa := c.isCa
      signatureAlgorithm := c.signatureAlgorithm.text
      fingerprint := Text.Hex.colons Text.Hex.upperDigit (Crypto.Sha256.digest bytes) }

def fields (s : CertificateSummary) : List (String × String) :=
  [("Subject:", s.subject), ("Issuer:", s.issuer), ("Serial:", s.serial),
    ("Not Before:", s.notBefore.print), ("Not After:", s.notAfter.print),
    ("CA:", if s.isCa then "true" else "false"), ("Signature Algorithm:", s.signatureAlgorithm),
    ("SHA256 Fingerprint:", s.fingerprint)]

def print (s : CertificateSummary) : String :=
  "\n".intercalate (s.fields.map fun (label, value) => Text.align .left 21 label ++ value)

end CertificateSummary

end NetworkCa
