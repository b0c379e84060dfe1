import NetworkCa.Batch.Run
import NetworkCa.Cli.Arguments

namespace NetworkCa.Cli

structure Selection where
  root : Path
  file : Option Path
  environment : Option String
  deriving Repr, DecidableEq

inductive Action where
  | makeAuthority
  | showAuthority
  | issueOne (identity : Identity) (leaf : LeafSettings)
  | issueAll (selection : Selection) (leaf : LeafSettings) (regenerateCa strict : Bool)
  | showTopology (selection : Selection)
  deriving Repr, DecidableEq

structure Invocation where
  ca : AuthoritySettings
  backend : Backend
  program : String
  timeLimit : Option Duration
  action : Action
  deriving Repr, DecidableEq

namespace Given

def text (given : Given) (name default : String) : String := (given.lookup name).getD default

def path? (given : Given) (name : String) : Option Path := (given.lookup name).map Path.ofString

def path (given : Given) (name default : String) : Path := ⟨given.text name default⟩

def flag (given : Given) (name : String) : Bool := (given.lookup name).isSome

def method (given : Given) : KeyMethod := ((given.lookup "method").bind KeyMethod.ofTag?).getD .ecc

def backend (given : Given) : Backend :=
  ((given.lookup "backend").bind Backend.ofTag?).getD .native

def role (given : Given) : Role := ((given.lookup "role").bind Role.ofTag?).getD .client

end Given

def authorityOf (given : Given) : AuthoritySettings :=
  let d := AuthoritySettings.default
  { dir := Given.path given "ca-dir" d.dir.text
    filename := Given.text given "ca-filename" d.filename
    method := Given.method given
    passphrase := Given.text given "dsa-password" d.passphrase
    subject := Given.text given "ca-subject" d.subject
    requestConfig := Given.path? given "ca-config" }

def leafOf (given : Given) (ca : AuthoritySettings) : LeafSettings where
  subject := Given.text given "subject" (LeafSettings.subjectBelow ca.subject)
  extensions := Given.path? given "config"
  linkStyle := if Given.flag given "shortest-links" then .shortest else .legacy

def selectionOf (given : Given) : Selection where
  root := Given.path given "root" "../.."
  file := Given.path? given "topology"
  environment := given.lookup "env"

def identityOf (given : Given) : Identity where
  role := Given.role given
  dir := Given.path given "dir" "./cert"
  name := Given.text given "name" "client"
  caLink := Given.text given "ca-link" Identity.defaultCaLink

def actionOf (command : String) (given : Given) (ca : AuthoritySettings) : Action :=
  match command with
  | "ca" => .makeAuthority
  | "list" => .showAuthority
  | "auth" => .issueOne (identityOf given) (leafOf given ca)
  | "all" =>
    .issueAll (selectionOf given) (leafOf given ca) (Given.flag given "regenerate-ca")
      (Given.flag given "strict")
  | _ => .showTopology (selectionOf given)

def parse (arguments : List String) : Except Usage Invocation := do
  let (command, given) ← parseOptions arguments
  let ca := authorityOf given
  return {
    ca
    backend := Given.backend given
    program := Given.text given "openssl" "openssl"
    timeLimit := ((given.lookup "command-timeout").bind number?).map Duration.ofSeconds
    action := actionOf command given ca }

end NetworkCa.Cli
