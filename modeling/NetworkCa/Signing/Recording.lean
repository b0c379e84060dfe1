import NetworkCa.Signing.Basic
import NetworkCa.Text.Split

namespace NetworkCa.Signer

variable {σ : Type}

def traced (s : Signer σ) : Signer (σ × List SigningCall) := fun call world =>
  let (result, after) := s call ⟨world.tree, world.memory.1⟩
  (result, ⟨after.tree, (after.memory, world.memory.2 ++ [call])⟩)

def placeholderCert : String :=
  "-----BEGIN CERTIFICATE-----\nTU9DSw==\n-----END CERTIFICATE-----\n"

def placeholder : SigningCall → String
  | .key .. => "KEY\n"
  | .selfSign .. => placeholderCert
  | .request .. => "CSR\n"
  | .sign .. => placeholderCert

def injected (call : SigningCall) : SigningError :=
  .commandFailed s!"mock {call.title}" "exit status: 1" "injected failure"

/-- Writes placeholders, or nothing where it is silent, and fails on demand. -/
def placeholders (failOn : Option String) (silent : Bool) : Signer Unit := fun call => do
  if failOn.any fun part => Text.contains part.toList call.out.text.toList then
    throw (injected call)
  if !silent then
    Work.change (.io call.out) (·.write call.out (Text.Utf8.encode (placeholder call)))

def recording (failOn : Option String) (silent : Bool) : Signer (Unit × List SigningCall) :=
  traced (placeholders failOn silent)

end NetworkCa.Signer
