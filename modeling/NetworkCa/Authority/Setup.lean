import NetworkCa.Certificate.Chain
import NetworkCa.FileTree.Tidy
import NetworkCa.Signing.Basic

namespace NetworkCa

abbrev Issuance (σ α : Type) := Work σ IssuanceError α

namespace Issuance

variable {σ α : Type}

def change (f : FileTree → Except IssuanceError FileTree) : Issuance σ Unit := do
  match f (← Work.tree) with
  | .ok t => modify fun w => { w with tree := t }
  | .error e => throw e

def clear (p : Path) : Issuance σ Unit := change fun t => (t.removeStale p).map (·.2)

def call (s : Signer σ) (c : SigningCall) : Issuance σ Unit := Work.blaming .signing (s c)

end Issuance

namespace Authority

variable {σ : Type}

def validityDays : Nat := 500

/-- Makes an authority. Any authority with the same files is gone for good, and so is its count of
    serial numbers. -/
def bootstrap (s : Signer σ) (settings : AuthoritySettings) : Issuance σ AuthorityFiles := do
  let subject ← Work.lift .subject (Subject.parse settings.subject)
  let files := settings.files
  Issuance.change (·.ensureDirectory files.dir)
  Issuance.clear files.key
  Issuance.clear files.cert
  Issuance.clear files.serial
  let passphrase := settings.keyPassphrase
  Issuance.call s (.key settings.method passphrase files.key)
  Issuance.call s
    (.selfSign files.key passphrase subject validityDays settings.requestConfig files.cert)
  return files

def isPresent (t : FileTree) (files : AuthorityFiles) : Bool :=
  t.isFile files.key && t.isFile files.cert

def require (t : FileTree) (settings : AuthoritySettings) : Except IssuanceError AuthorityFiles :=
  if isPresent t settings.files then .ok settings.files
  else .error (.authorityMissing settings.files.cert)

def describe (t : FileTree) (settings : AuthoritySettings) :
    Except IssuanceError CertificateSummary := do
  match ← Certificate.describeFile t settings.files.cert with
  | summary :: _ => return summary
  | [] => throw (.certificate (.missing settings.files.cert))

end Authority

end NetworkCa
