import NetworkCa.Path.Basic

namespace NetworkCa

/-- A place in a file tree: the names on the way down from the root. -/
abbrev Location := List String

namespace Location

def parent (l : Location) : Location := l.dropLast

def path (l : Location) : Path := ⟨"/" ++ "/".intercalate l⟩

/-- The text of a place cut at its slashes. The root has two empty segments and every other place
    one, before its names. -/
def segments : Location → List String
  | [] => ["", ""]
  | names => "" :: names

end Location

namespace Path

/-- One component further, by the text alone: the parent of the root is the root. -/
def stepFrom (l : Location) : Component → Location
  | .root => []
  | .current => l
  | .parent => l.parent
  | .name s => l ++ [s]

def absolute (cwd : Location) (p : Path) : Location :=
  (cwd.path.join p).components.foldl stepFrom []

def absolutize (cwd : Location) (p : Path) : Path := (p.absolute cwd).path

end Path

end NetworkCa
