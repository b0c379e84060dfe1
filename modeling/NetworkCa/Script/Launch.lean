import NetworkCa.Script.Run

namespace NetworkCa.Script

def toolDirectories : List String := ["/bin/", "/usr/bin/"]

def tools : List (String × Nat) := [("true", 0), ("false", 1)]

def toolStatus? (program : String) : Option Nat :=
  tools.findSome? fun (name, status) =>
    if program = name || toolDirectories.any fun d => program = d ++ name then some status else none

def interpreters : List String :=
  toolDirectories.flatMap fun d => ["sh", "bash", "dash"].map (d ++ ·)

def interpreterOf (text : String) : Option String :=
  match text.toList with
  | '#' :: '!' :: rest =>
    let line := Text.trim (Text.before '\n' rest)
    some (String.ofList (line.takeWhile fun c => !isBlank c))
  | _ => none

def nulInCommand : FileFailure := .other "nul byte found in provided data"

def hasNul (s : String) : Bool := s.toList.contains '\x00'

def shellFor (command : Command) (limit : Option Duration) (t : FileTree) : Shell where
  tree := t
  name := command.program
  arguments := command.arguments
  bindings := (command.passphrase.map fun p => (Command.passphraseVariable, p)).toList
  stderr := []
  status := 0
  remaining := limit

def launchFile (command : Command) (limit : Option Duration) (t : FileTree) :
    LaunchResult × FileTree :=
  match t.behind ⟨command.program⟩ with
  | .error failure => (.notStarted failure, t)
  | .ok (.file .executable content) =>
    let text := Text.Utf8.decodeLossy content
    match interpreterOf text with
    | none => (.notStarted .notExecutable, t)
    | some interpreter =>
      if interpreters.contains interpreter then
        if limit = some ⟨0⟩ then (.outOfTime, t) else runText text (shellFor command limit t)
      else match toolStatus? interpreter with
        | some status => (.finished (.exited status) [], t)
        | none => (.notStarted .notFound, t)
  | .ok _ => (.notStarted .accessDenied, t)

def launch : Launcher := fun command limit t =>
  if hasNul command.program || command.arguments.any hasNul || command.passphrase.any hasNul then
    (.notStarted nulInCommand, t)
  else match toolStatus? command.program with
    | some status => (.finished (.exited status) [], t)
    | none =>
      if command.program.toList.contains '/' then launchFile command limit t
      else (.notStarted .notFound, t)

end NetworkCa.Script
