import NetworkCa.Authority.Files
import NetworkCa.Signing.Failure
import NetworkCa.Subject.Basic

namespace NetworkCa

/-- One piece of work for a signer. Each makes the file `out`. -/
inductive SigningCall where
  | key (method : KeyMethod) (passphrase : Option String) (out : Path)
  | selfSign (key : Path) (passphrase : Option String) (subject : Subject) (days : Nat)
    (config : Option Path) (out : Path)
  | request (key : Path) (subject : Subject) (config : Option Path) (out : Path)
  | sign (request : Path) (authority : AuthorityFiles) (passphrase : Option String) (days : Nat)
    (extensions : Option Path) (out : Path)
  deriving Repr, DecidableEq

namespace SigningCall

def out : SigningCall → Path
  | .key _ _ out => out
  | .selfSign _ _ _ _ _ out => out
  | .request _ _ _ out => out
  | .sign _ _ _ _ _ out => out

def title : SigningCall → String
  | .key .. => "key"
  | .selfSign .. => "self_sign"
  | .request .. => "csr"
  | .sign .. => "sign"

end SigningCall

structure World (σ : Type) where
  tree : FileTree
  memory : σ

/-- Work on a world that may fail. What was done before a failure stays done. -/
abbrev Work (σ ε α : Type) := ExceptT ε (StateM (World σ)) α

abbrev Signer (σ : Type) := SigningCall → Work σ SigningError Unit

namespace Work

variable {σ ε α : Type}

def tree : Work σ ε FileTree := do return (← get).tree

def change (blame : FileFailure → ε) (f : FileTree → Except FileFailure FileTree) :
    Work σ ε Unit := do
  match f (← tree) with
  | .ok t => modify fun w => { w with tree := t }
  | .error failure => throw (blame failure)

def look (blame : FileFailure → ε) (f : FileTree → Except FileFailure α) : Work σ ε α := do
  match f (← tree) with
  | .ok a => return a
  | .error failure => throw (blame failure)

def lift {δ : Type} (blame : δ → ε) : Except δ α → Work σ ε α
  | .ok a => return a
  | .error e => throw (blame e)

def blaming {δ : Type} (blame : δ → ε) (w : Work σ δ α) : Work σ ε α := ExceptT.adapt blame w

def runOn (w : Work σ ε α) (world : World σ) : Except ε α × World σ := (ExceptT.run w).run world

end Work

end NetworkCa
