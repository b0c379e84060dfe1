import NetworkCa.Certificate.Summary
import NetworkCa.Certificate.Issuing
import NetworkCa.Failure

namespace NetworkCa.Certificate

/-- The encoded certificates in a text, in its order. Blocks with other labels are left out. -/
def chainOfText (content : Bytes) : Except CertificateFault (List Bytes) :=
  match Pem.blocks content with
  | .error fault => .error (.pem fault)
  | .ok blocks => .ok ((blocks.filter (·.label = label)).map (·.contents))

def readChain (t : FileTree) (path : Path) : Except IssuanceError (List Bytes) := do
  match t.read path with
  | .error failure => throw (.io path failure)
  | .ok content =>
    match chainOfText content with
    | .error fault => throw (.certificate fault)
    | .ok chain => return chain

def summarize (bytes : Bytes) : Except IssuanceError CertificateSummary :=
  match CertificateSummary.ofBytes? bytes with
  | some s => .ok s
  | none => .error (.certificate .encoding)

def describeFile (t : FileTree) (path : Path) : Except IssuanceError (List CertificateSummary) := do
  (← readChain t path).mapM summarize

end NetworkCa.Certificate
