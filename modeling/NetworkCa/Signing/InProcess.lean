import NetworkCa.Certificate.Issuing
import NetworkCa.Certificate.PrivateKey
import NetworkCa.Signing.Serial

namespace NetworkCa.Signer

namespace InProcess

inductive Stop where
  | refused (error : SigningError)
  /-- The work is given up where it stands: there is no answer, and nothing comes after it. -/
  | aborted
  deriving Repr, DecidableEq

abbrev Step (α : Type) := Work Entropy Stop α

def backend : String := "native"

def scalar : Step Nat := do
  let w ← get
  let (k, e) := w.memory.scalar
  set (World.mk w.tree e)
  return k

def freshSerial : Step Bytes := do
  let w ← get
  let (block, e) := w.memory.block
  set (World.mk w.tree e)
  return Serial.ofBlock block

def unsupported {α : Type} (what : String) : Step α := throw (.refused (.unsupported backend what))

def blameFile (path : Path) (failure : FileFailure) : Stop := .refused (.io path failure)

def readText (path : Path) : Step String := Work.look (blameFile path) (·.readText path)

def material {α : Type} (r : Except MaterialFault α) : Step α :=
  Work.lift (fun fault => .refused (.crypto (.material fault))) r

def writeNew (path : Path) (mode : FileMode) (content : Bytes) : Step Unit :=
  Work.change (blameFile path) (·.create path mode content)

/-- The next serial number of a serial file, or a new one if there is no such file. The file
    holds it from now on. -/
def nextSerial (path : Path) : Step Bytes := do
  let serial ← match (← Work.tree).readText path with
    | .ok text =>
      let last ← Work.lift (fun fault => .refused (.crypto (.serialFile path fault)))
        (Serial.parse text)
      pure (Serial.increment last)
    | .error .notFound => freshSerial
    | .error failure => throw (blameFile path failure)
  Work.change (blameFile path) (·.write path (Text.Utf8.encode (Serial.print serial)))
  return serial

def window (now : Instant) (days : Nat) : Step (Date × Date) :=
  (validity now days).elim (throw .aborted) pure

variable {κ : Type} (keys : KeyScheme κ)

def readKey (path : Path) : Step κ := do
  Work.lift (fun fault => .refused (.crypto (.keyFile path fault))) (keys.ofText (← readText path))

def writeCertificate (pair : κ) (body : Date × Date → CertificateBody) (now : Instant) (days : Nat)
    (out : Path) : Step Unit := do
  let body := body (← window now days)
  let der ← material (body.sign keys pair (← scalar))
  writeNew out .plain (Certificate.print der)

def generateKey (method : KeyMethod) (passphrase : Option String) (out : Path) : Step Unit := do
  if method ≠ .ecc then unsupported s!"{method.tag} keys"
  if passphrase.isSome then unsupported "passphrase protected keys"
  let secret ← scalar
  match keys.ofSecret? secret with
  | some pair => writeNew out .ownerOnly (keys.print pair)
  | none => material (.error .keyPair)

def selfSign (now : Instant) (key : Path) (passphrase : Option String) (subject : Subject)
    (days : Nat) (out : Path) : Step Unit := do
  if passphrase.isSome then unsupported "passphrase protected keys"
  let pair ← readKey keys key
  let serial ← freshSerial
  writeCertificate keys pair (.authority subject (keys.publicKey pair) serial) now days out

def createRequest (key : Path) (subject : Subject) (out : Path) : Step Unit := do
  let pair ← readKey keys key
  let der ← material (SigningRequest.sign subject keys pair (← scalar))
  writeNew out .plain (SigningRequest.print der)

def signRequest (now : Instant) (request : Path) (authority : AuthorityFiles)
    (passphrase : Option String) (days : Nat) (extensions : Option Path) (out : Path) :
    Step Unit := do
  if passphrase.isSome then unsupported "passphrase protected CA keys"
  let extensions ← Work.lift (fun error => .refused (.extensions error))
    (LeafExtensions.load (← Work.tree) extensions)
  let pair ← readKey keys authority.key
  let issuer ← material (Certificate.issuerOfText (← readText authority.cert) keys pair)
  let wish ← material (SigningRequest.wishOfText (← readText request) keys)
  let serial ← nextSerial authority.serial
  writeCertificate keys pair (.leaf issuer wish extensions serial) now days out

/-- What a caller is told. Work that is given up tells nothing, and what comes after it is never
    reached; its error stands in where a signer has to have one. -/
def Stop.error : Stop → SigningError
  | .refused error => error
  | .aborted => .crypto (.other "invalid or out-of-range date")

/-- All work is done here, on the day of the instant `now`. Passphrases are not known. -/
def perform (now : Instant) : SigningCall → Step Unit
  | .key method passphrase out => generateKey keys method passphrase out
  | .selfSign key passphrase subject days _ out =>
    selfSign keys now key passphrase subject days out
  | .request key subject _ out => createRequest keys key subject out
  | .sign request authority passphrase days extensions out =>
    signRequest keys now request authority passphrase days extensions out

end InProcess

def inProcessWith {κ : Type} (keys : KeyScheme κ) (now : Instant) : Signer Entropy :=
  fun c => Work.blaming InProcess.Stop.error (InProcess.perform keys now c)

def inProcess (now : Instant) : Signer Entropy := inProcessWith .p256 now

end NetworkCa.Signer
