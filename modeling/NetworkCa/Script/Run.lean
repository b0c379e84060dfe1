import NetworkCa.FileTree.Operations
import NetworkCa.Script.Format
import NetworkCa.Script.Parser
import NetworkCa.Script.Pattern
import NetworkCa.Signing.Command

namespace NetworkCa.Script

structure Shell where
  tree : FileTree
  name : String
  arguments : List String
  bindings : List (String × String)
  stderr : Bytes
  status : Nat
  remaining : Option Duration

inductive Stop where
  | ended (ending : Ending)
  | outOfTime
  deriving Repr, DecidableEq

abbrev Run (α : Type) := ExceptT Stop (StateM Shell) α

namespace Run

def processId : String := "4242"

def value (name : String) : Run String := do
  let s ← get
  match name with
  | "*" => return " ".intercalate s.arguments
  | "@" => return " ".intercalate s.arguments
  | "#" => return toString s.arguments.length
  | "?" => return toString s.status
  | "$" => return processId
  | "0" => return s.name
  | _ =>
    match name.toNat? with
    | some n => return s.arguments.getD (n - 1) ""
    | none => return (s.bindings.lookup name).getD ""

/-- Fields in reverse, the last of them still open. -/
structure Fields where
  closed : List (List (Bool × Char))
  current : Option (List (Bool × Char))

namespace Fields

def append (quoted : Bool) (s : List Char) (f : Fields) : Fields :=
  { f with current := some (f.current.getD [] ++ s.map fun c => (quoted, c)) }

def close (f : Fields) : Fields :=
  match f.current with
  | some w => ⟨w :: f.closed, none⟩
  | none => f

def split (s : List Char) (f : Fields) : Fields :=
  s.foldl (fun f c => if isBlank c || c = '\n' then f.close else f.append false [c]) f

def each (arguments : List String) (f : Fields) : Fields :=
  match arguments with
  | [] => f
  | a :: rest => rest.foldl (fun f a => f.close.append true a.toList) (f.append true a.toList)

def all (f : Fields) : List (List (Bool × Char)) := f.close.closed.reverse

end Fields

def addFragment (f : Fields) : Fragment → Run Fields
  | .text quoted s => return f.append quoted s
  | .parameter quoted name => do
    if quoted then
      if name = "@" then return f.each (← get).arguments
      else return f.append true (← value name).toList
    else return f.split (← value name).toList

def fieldsOf (w : Word) : Run (List (List (Bool × Char))) := do
  return (← w.foldlM addFragment ⟨[], none⟩).all

def textOf (field : List (Bool × Char)) : String := String.ofList (field.map (·.2))

def fields (words : List Word) : Run (List String) := do
  return (← words.mapM fun w => do return (← fieldsOf w).map textOf).flatten

def pattern (w : Word) : Run (List (Bool × Char)) := do
  let parts ← w.mapM fun
    | .text quoted s => return s.map fun c => (quoted, c)
    | .parameter quoted name => return (← value name).toList.map fun c => (quoted, c)
  return parts.flatten

def single (w : Word) : Run String := do return textOf (← pattern w)

inductive Sink where
  | discard
  | errors
  | file (path : Path)
  deriving Repr, DecidableEq

def addErrors (bytes : Bytes) : Run Unit := modify fun s => { s with stderr := s.stderr ++ bytes }

def send (sink : Sink) (bytes : Bytes) : Run Unit := do
  match sink with
  | .discard => return ()
  | .errors => addErrors bytes
  | .file path =>
    match (← get).tree.append path bytes with
    | .ok tree => modify fun s => { s with tree := tree }
    | .error _ => return ()

def nullDevice : Path := ⟨"/dev/null"⟩

def openSink (append : Bool) (path : Path) : Run (Option Sink) := do
  if path = nullDevice then return some .discard
  let tree := (← get).tree
  if append && tree.isFile path then return some (.file path)
  match tree.write path [] with
  | .ok tree =>
    modify fun s => { s with tree := tree }
    return some (.file path)
  | .error _ => return none

structure Sinks where
  output : Sink
  errors : Sink

def Sinks.set (sinks : Sinks) (stream : Nat) (sink : Sink) : Sinks :=
  if stream = 1 then { sinks with output := sink }
  else if stream = 2 then { sinks with errors := sink }
  else sinks

def complain (line : Nat) (text : String) (sink : Sink) : Run Unit := do
  send sink (Text.Utf8.encode s!"{(← get).name}: {line}: {text}\n")

def redirect (line : Nat) (sinks : Sinks) : List (Nat × Redirection) → Run (Option Sinks)
  | [] => return some sinks
  | (stream, .toFile append target) :: rest => do
    let path : Path := ⟨← single target⟩
    match ← openSink append path with
    | some sink => redirect line (sinks.set stream sink) rest
    | none =>
      complain line s!"cannot create {path.text}: Directory nonexistent" sinks.errors
      return none
  | (stream, .toStream target) :: rest =>
    let sink := if target = 2 then sinks.errors else sinks.output
    redirect line (sinks.set stream sink) rest
  | (_, .input) :: rest => redirect line sinks rest

structure Outcome where
  status : Nat
  output : Bytes := []
  errors : Bytes := []

def stop {α : Type} (ending : Ending) : Run α := throw (.ended ending)

def secondsOf (text : String) : Nat :=
  let whole := text.toList.takeWhile (· != '.')
  let fraction := (text.toList.dropWhile (· != '.')).drop 1
  let padded := (fraction ++ List.replicate 9 '0').take 9
  ((String.ofList (whole ++ padded)).toNat?).getD 0

def sleep (text : String) : Run Outcome := do
  let needed := secondsOf text
  match (← get).remaining with
  | none => return ⟨0, [], []⟩
  | some left =>
    if needed < left.nanoseconds then
      modify fun s => { s with remaining := some ⟨left.nanoseconds - needed⟩ }
      return ⟨0, [], []⟩
    else throw .outOfTime

def compareNumbers (operator a b : String) : Option Bool :=
  match a.toInt?, b.toInt? with
  | some x, some y =>
    match operator with
    | "-eq" => some (x = y)
    | "-ne" => some (x ≠ y)
    | "-lt" => some (x < y)
    | "-le" => some (x ≤ y)
    | "-gt" => some (x > y)
    | "-ge" => some (x ≥ y)
    | _ => none
  | _, _ => none

def test (tree : FileTree) : List String → Bool
  | [] => false
  | [s] => s ≠ ""
  | ["!", s] => s = ""
  | ["-n", s] => s ≠ ""
  | ["-z", s] => s = ""
  | ["-e", p] => tree.exists? ⟨p⟩
  | ["-f", p] => tree.isFile ⟨p⟩
  | ["-d", p] => tree.isDirectory ⟨p⟩
  | [a, "=", b] => a = b
  | [a, "!=", b] => a ≠ b
  | [a, operator, b] => (compareNumbers operator a b).getD false
  | "!" :: rest => !test tree rest
  | _ => false

def statusOf (b : Bool) : Nat := if b then 0 else 1

def echo : List String → Bytes
  | "-n" :: rest => unescaped 1 (" ".intercalate rest)
  | words => unescaped 1 (" ".intercalate words) ++ [10]

def concatenate (tree : FileTree) (paths : List String) : Outcome :=
  paths.foldl
    (fun out p =>
      match tree.read ⟨p⟩ with
      | .ok content => { out with output := out.output ++ content }
      | .error _ =>
        { out with
          status := 1
          errors := out.errors ++ Text.Utf8.encode s!"cat: {p}: No such file or directory\n" })
    ⟨0, [], []⟩

def changeTree (f : FileTree → Except FileFailure FileTree) : Run Outcome := do
  match f (← get).tree with
  | .ok tree =>
    modify fun s => { s with tree := tree }
    return ⟨0, [], []⟩
  | .error _ => return ⟨1, [], []⟩

def signalNumber (flag : String) : Nat :=
  match flag with
  | "-KILL" => 9
  | "-TERM" => 15
  | "-HUP" => 1
  | "-INT" => 2
  | _ => ((flag.toList.drop 1).foldl (fun n c => 10 * n + (c.toNat - 48)) 0)

def exitStatus (text : String) : Nat := (text.toNat?.getD 2) % 256

def command (line : Nat) : List String → Run Outcome
  | [] => return ⟨(← get).status, [], []⟩
  | [":"] => return ⟨0, [], []⟩
  | ":" :: _ => return ⟨0, [], []⟩
  | "true" :: _ => return ⟨0, [], []⟩
  | "false" :: _ => return ⟨1, [], []⟩
  | "echo" :: words => return ⟨0, echo words, []⟩
  | "printf" :: "--" :: format :: arguments =>
    return ⟨0, formatAll format arguments (arguments.length + 1), []⟩
  | "printf" :: format :: arguments =>
    return ⟨0, formatAll format arguments (arguments.length + 1), []⟩
  | ["exit"] => do stop (.exited (← get).status)
  | "exit" :: status :: _ => stop (.exited (exitStatus status))
  | ["kill", _] => stop (.killed 15)
  | "kill" :: flag :: _ => stop (.killed (signalNumber flag))
  | "sleep" :: time :: _ => sleep time
  | ["shift"] => do
    modify fun s => { s with arguments := s.arguments.drop 1 }
    return ⟨0, [], []⟩
  | "shift" :: n :: _ => do
    modify fun s => { s with arguments := s.arguments.drop (n.toNat?.getD 0) }
    return ⟨0, [], []⟩
  | "[" :: words => do return ⟨statusOf (test (← get).tree words.dropLast), [], []⟩
  | "test" :: words => do return ⟨statusOf (test (← get).tree words), [], []⟩
  | "cat" :: paths => do return concatenate (← get).tree paths
  | "touch" :: paths => changeTree fun t =>
      paths.foldlM (fun t p => if t.exists? ⟨p⟩ then .ok t else t.write ⟨p⟩ []) t
  | "rm" :: paths => changeTree fun t =>
      (paths.filter fun p => !p.startsWith "-").foldlM
        (fun t p => if t.exists? ⟨p⟩ then t.remove ⟨p⟩ else .ok t) t
  | "mkdir" :: paths => changeTree fun t =>
      (paths.filter fun p => !p.startsWith "-").foldlM (fun t p => t.makeDirectories ⟨p⟩) t
  | ["cp", source, goal] => changeTree fun t => do t.write ⟨goal⟩ (← t.read ⟨source⟩)
  | name :: _ => do
    let text := Text.Utf8.encode s!"{(← get).name}: {line}: {name}: not found\n"
    return ⟨127, [], text⟩

def setStatus (status : Nat) : Run Unit := modify fun s => { s with status := status }

def assign (name value : String) : Run Unit :=
  modify fun s => { s with bindings := (name, value) :: s.bindings }

/-- A command with its redirections. What `exec` starts is the last that happens. -/
def simple (line : Nat) (assignments : List (String × Word)) (words : List Word)
    (redirections : List (Nat × Redirection)) : Run Unit := do
  let words ← fields words
  match ← redirect line ⟨.discard, .errors⟩ redirections with
  | none => setStatus 2
  | some sinks =>
    assignments.forM fun (name, w) => do assign name (← single w)
    if words.isEmpty then setStatus 0
    else
      let last := words.head? = some "exec"
      let outcome ← command line (if last then words.drop 1 else words)
      send sinks.output outcome.output
      send sinks.errors outcome.errors
      setStatus outcome.status
      if last && 1 < words.length then stop (.exited outcome.status)

def succeeded : Run Bool := do return (← get).status = 0

def run : Statement → Run Unit
  | .skip => return ()
  | .simple line assignments words redirections => simple line assignments words redirections
  | .sequence first second => do
    run first
    run second
  | .both first second => do
    run first
    if ← succeeded then run second
  | .either first second => do
    run first
    if !(← succeeded) then run second
  | .negate s => do
    run s
    setStatus (statusOf (!(← succeeded)))
  | .conditional test yes no => do
    run test
    if ← succeeded then run yes
    else
      setStatus 0
      run no
  | .each name items body => do
    let values ← match items with
      | some words => fields words
      | none => do pure (← get).arguments
    values.forM fun v => do
      assign name v
      run body
  | .whenMatches subject patterns body otherwise => do
    let text := (← single subject).toList
    let patterns ← patterns.mapM pattern
    if patterns.any fun p => isMatch p text then run body else run otherwise

end Run

def runText (text : String) (shell : Shell) : LaunchResult × FileTree :=
  let (result, after) : Except Stop Unit × Shell :=
    match parse? text with
    | some statement => (ExceptT.run (Run.run statement)).run shell
    | none => (.error (.ended (.exited 2)), shell)
  match result with
  | .ok () => (.finished (.exited after.status) after.stderr, after.tree)
  | .error (.ended ending) => (.finished ending after.stderr, after.tree)
  | .error .outOfTime => (.outOfTime, after.tree)

end NetworkCa.Script
