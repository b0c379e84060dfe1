import NetworkCa.Authority.Files
import NetworkCa.Identity.Basic
import NetworkCa.Path.Relative

namespace NetworkCa

structure BundleFiles where
  key : Path
  request : Path
  chain : Path
  link : Path
  /-- A copy of the authority's certificate that older bundles had. -/
  formerCopy : Path
  /-- A certificate under the name that older bundles had for it. -/
  formerCert : Path
  deriving Repr, DecidableEq

namespace BundleFiles

def ofIdentity (i : Identity) : BundleFiles where
  key := i.dir.file (i.name ++ ".key")
  request := i.dir.file (i.name ++ ".csr")
  chain := i.dir.file (i.name ++ ".crt")
  link := i.dir.file i.caLink
  formerCopy := i.dir.file "ca.cer"
  formerCert := i.dir.file (i.name ++ ".pem")

def stale (f : BundleFiles) : List Path :=
  [f.key, f.chain, f.request, f.link, f.formerCopy, f.formerCert]

end BundleFiles

structure LeafSettings where
  /-- The subject, with marks for the name and the role of an identity. -/
  subject : String
  extensions : Option Path
  linkStyle : LinkStyle
  deriving Repr, DecidableEq

namespace LeafSettings

def subjectBelow (authority : String) : String := authority ++ "/CN=\x7bname\x7d"

def default : LeafSettings where
  subject := subjectBelow AuthoritySettings.defaultSubject
  extensions := none
  linkStyle := .legacy

end LeafSettings

end NetworkCa
