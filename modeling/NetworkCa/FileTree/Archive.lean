import NetworkCa.FileTree.Operations
import NetworkCa.Json.Printer
import NetworkCa.Json.Value
import NetworkCa.Text.Hex

namespace NetworkCa.FileTree.Archive

/-!
A file tree as one line of text: a list with a row for every entry below the working directory.
-/

def allModes : List FileMode := [.plain, .ownerOnly, .executable]

def modeOf? (digits : String) : Option FileMode := allModes.find? (·.digits = digits)

def namesText (names : Location) : String := "/".intercalate names

def rowOf (names : Location) : Entry → List String
  | .directory => ["directory", namesText names]
  | .file mode content => ["file", namesText names, mode.digits, Text.Hex.lower content]
  | .link target => ["link", namesText names, target.text]

def rows (t : FileTree) : List (List String) := t.listing.map fun (names, e) => rowOf names e

def print (t : FileTree) : String :=
  String.ofList (Json.array ((rows t).map fun row => Json.array (row.map Json.quoted)))

def entryOf? : List String → Option (String × Entry)
  | ["directory", path] => some (path, .directory)
  | ["file", path, digits, content] => do
    let mode ← modeOf? digits
    let bytes ← (Text.Hex.decode (Text.Utf8.encode content)).toOption
    return (path, .file mode bytes)
  | ["link", path, target] => some (path, .link ⟨target⟩)
  | _ => none

/-- Puts an entry into a tree whose working directory is the place of its first name. -/
def addRow (t : FileTree) (row : List String) : Option FileTree := do
  let (path, e) ← entryOf? row
  let names := (Path.ofString path).steps
  if names.isEmpty then none else some (t.put (t.cwd ++ names) e)

def rowsReader : Json.Reader (List (List String)) :=
  Json.Reader.list (Json.Reader.list (Json.Reader.textValue "a string"))

def parse? (cwd : Location) (text : String) : Option FileTree := do
  (← (Json.Reader.run rowsReader text).toOption).foldlM addRow (.empty cwd)

end NetworkCa.FileTree.Archive
