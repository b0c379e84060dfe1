import NetworkCa.Proofs.Signing.Pairing
import NetworkCa.Proofs.Signing.Tracing
import NetworkCa.Signing.Command

namespace NetworkCa

open FileTree (Respected SameShape respected_eq respected_sameShape)

variable {α : Type} {R : FileTree → FileTree → Prop} {launch launch' : Launcher} {secret : String}

namespace Command

/-- What others see of a command. -/
def visible (c : Command) : String × List String × String := (c.program, c.arguments, c.print)

theorem passphraseOption_map (flag : String) (passphrase : Option String) (secret : String) :
    passphraseOption flag (passphrase.map fun _ => secret) = passphraseOption flag passphrase := by
  cases passphrase <;> rfl

theorem ofCall_withPassphrase (program : String) (c : SigningCall) (secret : String) :
    ofCall program (c.withPassphrase secret) =
      ⟨program, argumentsOf c, (passphraseOf c).map fun _ => secret⟩ := by
  have arguments : argumentsOf (c.withPassphrase secret) = argumentsOf c := by
    cases c with
    | key method passphrase out =>
      cases method with
      | ecc => rfl
      | dsa =>
        simp only [SigningCall.withPassphrase, argumentsOf, keyArguments, passphraseOption_map,
          Option.isSome_map]
    | selfSign path passphrase subject days config out =>
      simp only [SigningCall.withPassphrase, argumentsOf, selfSignArguments, passphraseOption_map]
    | request path subject config out => rfl
    | sign path authority passphrase days extensions out =>
      simp only [SigningCall.withPassphrase, argumentsOf, signArguments, passphraseOption_map]
  have environment : passphraseOf (c.withPassphrase secret) =
      (passphraseOf c).map fun _ => secret := by
    cases c with
    | key method passphrase out => cases method <;> rfl
    | selfSign path passphrase subject days config out => rfl
    | request path subject config out => rfl
    | sign path authority passphrase days extensions out => rfl
  rw [ofCall, arguments, environment]

theorem visible_withPassphrase (program : String) (c : SigningCall) (secret : String) :
    (ofCall program (c.withPassphrase secret)).visible = (ofCall program c).visible := by
  rw [ofCall_withPassphrase]
  rfl

end Command

/-- Programs that take the same course in trees that are related, whatever passphrase stands in
    their environment. -/
def Launcher.Alike (R : FileTree → FileTree → Prop) (launch launch' : Launcher) : Prop :=
  ∀ program arguments passphrase passphrase' limit t t',
    passphrase'.isSome = passphrase.isSome → R t t' →
      (launch' ⟨program, arguments, passphrase'⟩ limit t').1 =
        (launch ⟨program, arguments, passphrase⟩ limit t).1 ∧
      R (launch ⟨program, arguments, passphrase⟩ limit t).2
        (launch' ⟨program, arguments, passphrase'⟩ limit t').2

namespace Signer

def tracedCommandLine (launch : Launcher) (program : String) (limit : Option Duration) :
    Signer (Unit × List SigningCall) :=
  traced (commandLine launch program limit)

def outcome (command : Command) (limit : Option Duration) (result : LaunchResult) :
    Except SigningError Unit :=
  match failureOf command limit result with
  | some e => .error e
  | none => .ok ()

theorem runOn_tracedCommandLine (launch : Launcher) (program : String) (limit : Option Duration)
    (c : SigningCall) (w : World (Unit × List SigningCall)) :
    (tracedCommandLine launch program limit c).runOn w =
      (outcome (Command.ofCall program c) limit (launch (Command.ofCall program c) limit w.tree).1,
        ⟨(launch (Command.ofCall program c) limit w.tree).2, ((), w.memory.2 ++ [c])⟩) := by
  have traced : (tracedCommandLine launch program limit c).runOn w =
      (((commandLine launch program limit c).runOn ⟨w.tree, ()⟩).1,
        ⟨((commandLine launch program limit c).runOn ⟨w.tree, ()⟩).2.tree,
          ((), w.memory.2 ++ [c])⟩) := rfl
  rw [traced, commandLine]
  dsimp only
  rw [Work.runOn_bind, Work.runOn_tree, outcome]
  dsimp only
  rcases launch (Command.ofCall program c) limit w.tree with ⟨result, t⟩
  dsimp only
  cases failureOf (Command.ofCall program c) limit result <;> rfl

def CallsMatch (secret : String) (memory memory' : Unit × List SigningCall) : Prop :=
  memory'.2 = memory.2.map (·.withPassphrase secret)

theorem paired_tracedCommandLine (alike : launch.Alike R launch') (program : String)
    (limit : Option Duration) (secret : String) :
    Signer.Paired R (CallsMatch secret) secret (tracedCommandLine launch program limit)
      (tracedCommandLine launch' program limit) := by
  intro c w w' matched
  obtain ⟨same, related⟩ := alike program (Command.argumentsOf c) (Command.passphraseOf c)
    ((Command.passphraseOf c).map fun _ => secret) limit w.tree w'.tree (by simp) matched.tree
  have calls : CallsMatch secret ((), w.memory.2 ++ [c])
      ((), w'.memory.2 ++ [c.withPassphrase secret]) := by
    unfold CallsMatch
    rw [matched.memory, List.map_append, List.map_singleton]
  rw [runOn_tracedCommandLine, runOn_tracedCommandLine, Command.ofCall_withPassphrase]
  refine ⟨?_, related, calls⟩
  dsimp only
  rw [same]
  rfl

end Signer

theorem AuthoritySettings.keyPassphrase_eq (ca : AuthoritySettings) :
    ca.keyPassphrase = if ca.method = .dsa then some ca.passphrase else none := by
  unfold keyPassphrase
  cases ca.method <;> rfl

/-- Every command for the authority has the passphrase in its environment, and of the commands for
    leaves those that sign do. Nothing has one unless the keys are of the kind that is encrypted. -/
structure Entrusted (program : String) (ca : AuthoritySettings) (leaf : LeafSettings)
    (identities : List Identity) (founding : List SigningCall)
    (bundles : List (List SigningCall)) : Prop where
  foundingCalls : ∃ subject, founding <+: Authority.calls ca subject
  bundleCalls : ∀ made ∈ bundles, ∃ i ∈ identities, ∃ subject,
    made <+: Bundle.calls ca leaf subject (.ofIdentity i)
  foundingSecret : ∀ c ∈ founding, (Command.ofCall program c).passphrase =
    if ca.method = .dsa then some ca.passphrase else none
  bundleSecret : ∀ made ∈ bundles, ∀ c ∈ made, (Command.ofCall program c).passphrase =
    if c.title = "sign" ∧ ca.method = .dsa then some ca.passphrase else none

theorem entrusted_of_prefixes {ca : AuthoritySettings} {leaf : LeafSettings}
    {identities : List Identity} {founding : List SigningCall} {bundles : List (List SigningCall)}
    (program : String) (front : ∃ subject, founding <+: Authority.calls ca subject)
    (fronts : ∀ made ∈ bundles, ∃ i ∈ identities, ∃ subject,
      made <+: Bundle.calls ca leaf subject (.ofIdentity i)) :
    Entrusted program ca leaf identities founding bundles := by
  have secret := ca.keyPassphrase_eq
  refine ⟨front, fronts, ?_, ?_⟩
  · obtain ⟨subject, front⟩ := front
    intro c member
    have one := front.subset member
    simp only [Authority.calls, List.mem_cons, List.not_mem_nil, or_false] at one
    rcases one with rfl | rfl
    · rw [secret]
      cases ca.method <;> rfl
    · exact secret
  · intro made listed c member
    obtain ⟨i, _, subject, front⟩ := fronts made listed
    have one := front.subset member
    simp only [Bundle.calls, List.mem_cons, List.not_mem_nil, or_false] at one
    rcases one with rfl | rfl | rfl
    · cases ca.method <;> rfl
    · rfl
    · rw [secret]
      cases ca.method <;> rfl

/-- Two runs with the same result, with related trees, and with the same commands, as far as
    others see them. -/
structure Indistinct (R : FileTree → FileTree → Prop) (program : String)
    (r r' : Except IssuanceError α × World (Unit × List SigningCall)) : Prop where
  result : r'.1 = r.1
  trees : R r.2.tree r'.2.tree
  commands : r'.2.memory.2.map (fun c => (Command.ofCall program c).visible) =
    r.2.memory.2.map fun c => (Command.ofCall program c).visible

theorem indistinct_of_paired {x x' : Issuance (Unit × List SigningCall) α}
    (paired : Work.Paired R (Signer.CallsMatch secret) x x') (program : String) {t t' : FileTree}
    (related : R t t') :
    Indistinct R program (x.runOn ⟨t, ((), [])⟩) (x'.runOn ⟨t', ((), [])⟩) := by
  obtain ⟨result, matched⟩ := paired ⟨t, ((), [])⟩ ⟨t', ((), [])⟩ ⟨related, rfl⟩
  refine ⟨result, matched.tree, ?_⟩
  rw [matched.memory, List.map_map]
  exact List.map_congr_left fun c _ => Command.visible_withPassphrase program c secret

namespace Sample

def valueOf (flag : String) : List String → Option String
  | name :: value :: rest => if name = flag then some value else valueOf flag (value :: rest)
  | _ => none

def revealing : Launcher := fun command _ t =>
  match valueOf "-out" command.arguments with
  | none => (.finished (.exited 1) [], t)
  | some out =>
    match t.write ⟨out⟩ (Text.Utf8.encode (command.passphrase.getD "")) with
    | .ok t => (.finished (.exited 0) [], t)
    | .error failure => (.notStarted failure, t)

theorem revealing_alike : revealing.Alike SameShape revealing := by
  intro program arguments passphrase passphrase' limit t t' _ same
  unfold revealing
  dsimp only
  cases valueOf "-out" arguments with
  | none => exact ⟨rfl, same⟩
  | some out =>
    have written := same.write ⟨out⟩ (Text.Utf8.encode (passphrase.getD ""))
      (Text.Utf8.encode (passphrase'.getD ""))
    dsimp only
    generalize t.write ⟨out⟩ (Text.Utf8.encode (passphrase.getD "")) = r at written ⊢
    generalize t'.write ⟨out⟩ (Text.Utf8.encode (passphrase'.getD "")) = r' at written ⊢
    cases written with
    | ok after => exact ⟨rfl, after⟩
    | error failure => exact ⟨rfl, same⟩

def missing : Launcher := fun _ _ t => (.notStarted .notFound, t)

theorem missing_alike : missing.Alike Eq missing := by
  intro program arguments passphrase passphrase' limit t t' _ same
  exact ⟨rfl, same⟩

def tree : FileTree := (FileTree.empty ["w"]).put ["w", "D"] .directory

def topology : Topology := ⟨[⟨.peer, ⟨"D"⟩, "peer0", "CA.pem"⟩]⟩

def authority (secret : String) : AuthoritySettings :=
  ⟨⟨"CA"⟩, "ca", .dsa, secret, "/O=N", none⟩

def batch (secret : String) : Except IssuanceError BatchReport × World (Unit × List SigningCall) :=
  (Batch.run (Signer.tracedCommandLine revealing "openssl" none)
    ⟨authority secret, .default, true, .bestEffort⟩ topology).runOn ⟨tree, ((), [])⟩

def refused (secret : String) :
    Except IssuanceError AuthorityFiles × World (Unit × List SigningCall) :=
  (Authority.bootstrap (Signer.tracedCommandLine missing "openssl" none)
    (authority secret)).runOn ⟨tree, ((), [])⟩

end Sample

end NetworkCa
