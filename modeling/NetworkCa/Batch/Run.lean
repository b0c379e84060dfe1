import NetworkCa.Batch.Report
import NetworkCa.Bundle.Issue
import NetworkCa.Topology.Basic

namespace NetworkCa

inductive FailurePolicy where
  | bestEffort
  | strict
  deriving Repr, DecidableEq

structure BatchSettings where
  ca : AuthoritySettings
  leaf : LeafSettings
  regenerateCa : Bool
  policy : FailurePolicy
  deriving Repr, DecidableEq

namespace Batch

variable {σ : Type}

def tolerates (policy : FailurePolicy) (e : IssuanceError) : Bool :=
  !e.isFatal && policy = .bestEffort

def step (s : Signer σ) (settings : BatchSettings) (report : BatchReport) (i : Identity) :
    Issuance σ BatchReport := do
  tryCatch
    (do
      let _ ← Bundle.issue s settings.ca settings.leaf i
      return { report with issued := report.issued ++ [i] })
    fun e =>
      if tolerates settings.policy e then
        return { report with failed := report.failed ++ [⟨i, e.message⟩] }
      else throw e

def prepare (s : Signer σ) (settings : BatchSettings) : Issuance σ Unit := do
  if settings.regenerateCa then
    let _ ← Authority.bootstrap s settings.ca
  else
    let _ ← Work.lift id (Authority.require (← Work.tree) settings.ca)

def run (s : Signer σ) (settings : BatchSettings) (t : Topology) : Issuance σ BatchReport := do
  prepare s settings
  t.identities.foldlM (step s settings) ⟨settings.regenerateCa, [], []⟩

end Batch

end NetworkCa
