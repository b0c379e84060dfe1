import NetworkCa.Cli.Invocation
import NetworkCa.Signing.Command
import NetworkCa.Signing.InProcess

namespace NetworkCa.Cli

inductive CommandError where
  | issuance (error : IssuanceError)
  | unreadable (failure : FileFailure)
  deriving Repr, DecidableEq

def CommandError.message : CommandError → String
  | .issuance error => error.message
  | .unreadable failure => failure.message

structure Services where
  launch : Launcher
  now : Instant

structure Result where
  exit : Nat
  stdout : String
  error : Option CommandError

def success : Nat := 0

def failed : Nat := 1

def wrongUsage : Nat := 2

def Result.stderr (r : Result) : String :=
  match r.error with
  | some error => s!"error: {error.message}\n"
  | none => ""

def line (s : String) : String := s ++ "\n"

def ofOutput (stdout : String) : Result := ⟨success, stdout, none⟩

def ofError (error : CommandError) : Result := ⟨failed, "", some error⟩

def Selection.load (s : Selection) (t : FileTree) : Except CommandError Topology := do
  let all ← match s.file with
    | none => pure Topology.builtin
    | some path =>
      match t.readText path with
      | .error failure => throw (.unreadable failure)
      | .ok text =>
        match Topology.parse text with
        | .error error => throw (.issuance (.topology error))
        | .ok topology => pure topology
  let selected := match s.environment with
    | some start => all.environment start
    | none => all
  return selected.rooted s.root

def topologyRow (role dir : String) : String := line (Text.align .left 8 role ++ "  " ++ dir)

def topologyTable (t : Topology) : String :=
  topologyRow "ROLE" "DIRECTORY" ++ line (String.ofList (List.replicate 60 '-')) ++
    String.join (t.identities.map fun i => topologyRow i.role.tag i.dir.text) ++
    line s!"\n{t.identities.length} identities"

def batchResult (r : BatchReport) : Result where
  exit := if r.isSuccess then success else failed
  stdout := String.join (r.issued.map fun i => line i.dir.text) ++ line r.print
  error := none

variable {σ : Type}

def resultOf {α : Type} (show_ : α → Result) (w : Issuance σ α) (world : World σ) :
    Result × World σ :=
  match w.runOn world with
  | (.ok a, after) => (show_ a, after)
  | (.error e, after) => (ofError (.issuance e), after)

def perform (s : Signer σ) (invocation : Invocation) (world : World σ) : Result × World σ :=
  let ca := invocation.ca
  match invocation.action with
  | .makeAuthority =>
    resultOf (fun files => ofOutput (line files.cert.text)) (Authority.bootstrap s ca) world
  | .showAuthority =>
    match Authority.describe world.tree ca with
    | .ok summary => (ofOutput (line summary.print), world)
    | .error e => (ofError (.issuance e), world)
  | .issueOne identity leaf =>
    resultOf batchResult (Batch.run s ⟨ca, leaf, false, .strict⟩ ⟨[identity]⟩) world
  | .issueAll selection leaf regenerateCa strict =>
    match selection.load world.tree with
    | .error e => (ofError e, world)
    | .ok topology =>
      let policy := if strict then FailurePolicy.strict else .bestEffort
      resultOf batchResult (Batch.run s ⟨ca, leaf, regenerateCa, policy⟩ topology) world
  | .showTopology selection =>
    match selection.load world.tree with
    | .error e => (ofError e, world)
    | .ok topology => (ofOutput (topologyTable topology), world)

def usageText : String :=
  "Usage: ledgerca [OPTIONS] <ca|list|auth|all|topology> [OPTIONS]\n"

def run (services : Services) (arguments : List String) (world : World Entropy) :
    Result × World Entropy :=
  match parse arguments with
  | .error .help => (ofOutput usageText, world)
  | .error .wrong => (⟨wrongUsage, "", none⟩, world)
  | .ok invocation =>
    match invocation.backend with
    | .native => perform (Signer.inProcess services.now) invocation world
    | .openssl =>
      let signer := Signer.commandLine services.launch invocation.program invocation.timeLimit
      let (result, after) := perform signer invocation ⟨world.tree, ()⟩
      (result, ⟨after.tree, world.memory⟩)

end NetworkCa.Cli
