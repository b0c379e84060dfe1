import NetworkCa.Identity.Basic
import NetworkCa.Text.Align

namespace NetworkCa

structure FailedIdentity where
  identity : Identity
  error : String
  deriving Repr, DecidableEq

structure BatchReport where
  caRegenerated : Bool
  issued : List Identity
  failed : List FailedIdentity
  deriving Repr, DecidableEq

namespace BatchReport

def isSuccess (r : BatchReport) : Bool := r.failed.isEmpty

def roleColumn (r : Role) : String := Text.align .left 8 r.tag

def failedLine (f : FailedIdentity) : String :=
  s!"\n  FAILED {roleColumn f.identity.role} {f.identity.dir.text}: {f.error}"

def print (r : BatchReport) : String :=
  let counts := s!"{r.issued.length} issued, {r.failed.length} failed"
  let note := if r.caRegenerated then " (root CA regenerated)" else ""
  counts ++ note ++ String.join (r.failed.map failedLine)

end BatchReport

end NetworkCa
