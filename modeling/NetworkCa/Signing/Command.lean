import NetworkCa.Signing.Basic

namespace NetworkCa

structure Command where
  program : String
  arguments : List String
  passphrase : Option String
  deriving Repr, DecidableEq

namespace Command

/-- The environment variable that holds a passphrase, which no argument ever does. -/
def passphraseVariable : String := "LEDGERCA_PASSPHRASE"

def print (c : Command) : String := " ".intercalate (c.program :: c.arguments)

def option (flag : String) : Option String → List String
  | some value => [flag, value]
  | none => []

def pathOption (flag : String) (path : Option Path) : List String := option flag (path.map (·.text))

def passphraseOption (flag : String) (passphrase : Option String) : List String :=
  option flag (passphrase.map fun _ => "env:" ++ passphraseVariable)

def curve : String := "prime256v1"

def rsaBits : String := "2048"

def keyArguments (method : KeyMethod) (passphrase : Option String) (out : Path) : List String :=
  match method with
  | .ecc => ["ecparam", "-out", out.text, "-name", curve, "-genkey"]
  | .dsa =>
    let cipher := if passphrase.isSome then ["-des3"] else []
    "genrsa" :: cipher ++ passphraseOption "-passout" passphrase ++ ["-out", out.text, rsaBits]

def selfSignArguments (key : Path) (passphrase : Option String) (subject : Subject) (days : Nat)
    (config : Option Path) (out : Path) : List String :=
  ["req", "-x509", "-new", "-nodes", "-key", key.text] ++ passphraseOption "-passin" passphrase ++
    pathOption "-config" config ++
    ["-sha256", "-days", toString days, "-subj", subject.print, "-out", out.text]

def requestArguments (key : Path) (subject : Subject) (config : Option Path) (out : Path) :
    List String :=
  ["req", "-new", "-key", key.text, "-out", out.text] ++ pathOption "-config" config ++
    ["-subj", subject.print]

def signArguments (request : Path) (authority : AuthorityFiles) (passphrase : Option String)
    (days : Nat) (extensions : Option Path) (out : Path) : List String :=
  ["x509", "-req", "-in", request.text, "-CA", authority.cert.text, "-CAkey", authority.key.text,
    "-CAserial", authority.serial.text, "-CAcreateserial", "-out", out.text,
    "-days", toString days, "-sha256"] ++ pathOption "-extfile" extensions ++
    passphraseOption "-passin" passphrase

/-- The passphrase that a call needs. Keys on a curve are never encrypted. -/
def passphraseOf : SigningCall → Option String
  | .key .ecc _ _ => none
  | .key .dsa passphrase _ => passphrase
  | .selfSign _ passphrase _ _ _ _ => passphrase
  | .request .. => none
  | .sign _ _ passphrase _ _ _ => passphrase

def argumentsOf : SigningCall → List String
  | .key method passphrase out => keyArguments method passphrase out
  | .selfSign key passphrase subject days config out =>
    selfSignArguments key passphrase subject days config out
  | .request key subject config out => requestArguments key subject config out
  | .sign request authority passphrase days extensions out =>
    signArguments request authority passphrase days extensions out

def ofCall (program : String) (call : SigningCall) : Command :=
  ⟨program, argumentsOf call, passphraseOf call⟩

end Command

inductive Ending where
  | exited (status : Nat)
  | killed (signal : Nat)
  deriving Repr, DecidableEq

namespace Ending

def signalNames : List (Nat × String) :=
  [(1, "SIGHUP"), (2, "SIGINT"), (3, "SIGQUIT"), (4, "SIGILL"), (5, "SIGTRAP"), (6, "SIGABRT"),
    (7, "SIGBUS"), (8, "SIGFPE"), (9, "SIGKILL"), (10, "SIGUSR1"), (11, "SIGSEGV"),
    (12, "SIGUSR2"), (13, "SIGPIPE"), (14, "SIGALRM"), (15, "SIGTERM")]

def print : Ending → String
  | .exited status => s!"exit status: {status}"
  | .killed signal =>
    match signalNames.lookup signal with
    | some name => s!"signal: {signal} ({name})"
    | none => s!"signal: {signal}"

end Ending

inductive LaunchResult where
  | notStarted (failure : FileFailure)
  | outOfTime
  | finished (ending : Ending) (stderr : Bytes)
  deriving Repr, DecidableEq

abbrev Launcher := Command → Option Duration → FileTree → LaunchResult × FileTree

namespace Signer

def failureOf (command : Command) (limit : Option Duration) : LaunchResult → Option SigningError
  | .notStarted failure => some (.spawn command.program failure)
  | .outOfTime => some (.timeout command.print (limit.getD ⟨0⟩))
  | .finished ending stderr =>
    if ending = .exited 0 then none
    else
      let text := Text.trim (Text.Utf8.decodeLossy stderr).toList
      some (.commandFailed command.print ending.print (String.ofList text))

def commandLine (launch : Launcher) (program : String) (limit : Option Duration) : Signer Unit :=
  fun call => do
    let command := Command.ofCall program call
    let (result, t) := launch command limit (← Work.tree)
    modify fun w => { w with tree := t }
    match failureOf command limit result with
    | some e => throw e
    | none => return ()

end Signer

end NetworkCa
