import Std.Time.DateTime.Timestamp
import NetworkCa.Cli.Run
import NetworkCa.FileTree.Archive
import NetworkCa.Script.Launch

open NetworkCa

def workingDirectory : Location := ["network"]

/-- Runs a command line on the file tree in the first line of the input. Prints what the command
    prints, and the file tree after it in a last line. -/
def main (arguments : List String) : IO UInt32 := do
  let input ← IO.getStdin
  match FileTree.Archive.parse? workingDirectory (← input.getLine) with
  | none =>
    IO.eprintln "the input holds no file tree"
    return UInt32.ofNat Cli.wrongUsage
  | some tree =>
    let seed ← IO.getRandomBytes 32
    let now ← Std.Time.Timestamp.now
    let services : Cli.Services := ⟨Script.launch, now.toSecondsSinceUnixEpoch.val⟩
    let (result, after) := Cli.run services arguments ⟨tree, ⟨seed.toList, 0⟩⟩
    IO.print result.stdout
    IO.eprint result.stderr
    IO.println (FileTree.Archive.print after.tree)
    return UInt32.ofNat result.exit
