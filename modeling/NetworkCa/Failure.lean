import NetworkCa.Signing.Failure
import NetworkCa.Subject.Template
import NetworkCa.Topology.Json

namespace NetworkCa

inductive CertificateFault where
  | pem (fault : Pem.Fault)
  | encoding
  | missing (path : Path)
  | other (text : String)
  deriving Repr, DecidableEq

def CertificateFault.message : CertificateFault → String
  | .pem fault => fault.message
  | .encoding => "malformed encoding"
  | .missing path => s!"no certificate in {path.text}"
  | .other text => text

inductive IssuanceError where
  | missingDirectory (dir : Path)
  | cleanup (path : Path) (failure : FileFailure)
  | io (path : Path) (failure : FileFailure)
  | signing (error : SigningError)
  | subject (error : SubjectError)
  | extensions (error : ExtensionError)
  | authorityMissing (path : Path)
  | certificate (fault : CertificateFault)
  | topology (error : TopologyError)
  deriving Repr, DecidableEq

namespace IssuanceError

def message : IssuanceError → String
  | .missingDirectory dir =>
    s!"directory does not exist: {dir.text} (leaf directories must be provisioned before issuance)"
  | .cleanup path failure => s!"failed to remove stale artifact {path.text}: {failure.message}"
  | .io path failure => s!"I/O error on {path.text}: {failure.message}"
  | .signing error => s!"signing failed: {error.message}"
  | .subject error => error.message
  | .extensions error => error.message
  | .authorityMissing path =>
    s!"CA material not found at {path.text} (run the `ca` command or pass --regenerate-ca)"
  | .certificate fault => s!"failed to parse certificate: {fault.message}"
  | .topology error => error.message

/-- Does an error end a batch under every policy? Only a signer may fail for one identity alone. -/
def isFatal : IssuanceError → Bool
  | .signing _ => false
  | _ => true

end IssuanceError

end NetworkCa
