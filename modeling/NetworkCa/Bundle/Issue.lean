import NetworkCa.Authority.Setup
import NetworkCa.Bundle.Files

namespace NetworkCa.Bundle

variable {σ : Type}

def validityDays : Nat := 400

def clear (files : BundleFiles) : Issuance σ Unit := files.stale.forM Issuance.clear

def link (authority : AuthorityFiles) (leaf : LeafSettings) (i : Identity) (files : BundleFiles) :
    Issuance σ Unit := do
  let cwd := (← Work.tree).cwd
  let target := Path.linkTarget leaf.linkStyle cwd i.dir authority.dir authority.certName
  Work.change (.io files.link) (·.makeLink ⟨target⟩ files.link)

def sign (s : Signer σ) (ca : AuthoritySettings) (leaf : LeafSettings) (subject : Subject)
    (files : BundleFiles) : Issuance σ Unit := do
  Issuance.call s (.key ca.method none files.key)
  Issuance.call s (.request files.key subject ca.requestConfig files.request)
  Issuance.call s
    (.sign files.request ca.files ca.keyPassphrase validityDays leaf.extensions files.chain)

/-- Issues one bundle in the directory of an identity, which must be there. After a failure the
    files stay as they are at that point. -/
def issue (s : Signer σ) (ca : AuthoritySettings) (leaf : LeafSettings) (i : Identity) :
    Issuance σ BundleFiles := do
  if !(← Work.tree).exists? i.dir then throw (.missingDirectory i.dir)
  let subject ← Work.lift .subject (Subject.forIdentity leaf.subject i)
  let files := BundleFiles.ofIdentity i
  clear files
  link ca.files leaf i files
  sign s ca leaf subject files
  Issuance.change (·.appendFile ca.files.cert files.chain)
  return files

end NetworkCa.Bundle
