import NetworkCa.FileTree.Lookup

namespace NetworkCa.FileTree

def entryAt (t : FileTree) (p : Path) : Except FileFailure Entry :=
  match t.lookup .inspect p with
  | .ok (.taken _ e _) => .ok e
  | .ok (.free ..) => .error .notFound
  | .error f => .error f

def behind (t : FileTree) (p : Path) : Except FileFailure Entry :=
  match t.lookup .reach p with
  | .ok (.taken _ e _) => .ok e
  | .ok (.free ..) => .error .notFound
  | .error f => .error f

def exists? (t : FileTree) (p : Path) : Bool := (t.behind p).toBool

def isFile (t : FileTree) (p : Path) : Bool :=
  match t.behind p with
  | .ok e => e.isFile
  | .error _ => false

def read (t : FileTree) (p : Path) : Except FileFailure Bytes :=
  match t.behind p with
  | .ok (.file _ content) => .ok content
  | .ok _ => .error .isDirectory
  | .error f => .error f

def readText (t : FileTree) (p : Path) : Except FileFailure String := do
  let content ← t.read p
  match Text.Utf8.decode? content with
  | some s => return s
  | none => throw .notText

/-- Writes a file, in the stead of its old content. A file that is there keeps its mode. -/
def write (t : FileTree) (p : Path) (content : Bytes) : Except FileFailure FileTree :=
  match t.lookup .write p with
  | .ok (.free place _) => .ok (t.put place (.file .plain content))
  | .ok (.taken place (.file mode _) _) => .ok (t.put place (.file mode content))
  | .ok (.taken ..) => .error .isDirectory
  | .error f => .error f

/-- Writes a file at a place where nothing is, not even a link. -/
def create (t : FileTree) (p : Path) (mode : FileMode) (content : Bytes) :
    Except FileFailure FileTree :=
  match t.lookup .occupy p with
  | .ok (.free place slash) =>
    if slash then .error .isDirectory else .ok (t.put place (.file mode content))
  | .ok (.taken _ _ slash) => if slash then .error .isDirectory else .error .exists
  | .error f => .error f

def append (t : FileTree) (p : Path) (content : Bytes) : Except FileFailure FileTree :=
  match t.lookup .reach p with
  | .ok (.taken place (.file mode old) _) => .ok (t.put place (.file mode (old ++ content)))
  | .ok (.taken ..) => .error .isDirectory
  | .ok (.free ..) => .error .notFound
  | .error f => .error f

def setMode (t : FileTree) (p : Path) (mode : FileMode) : Except FileFailure FileTree :=
  match t.lookup .reach p with
  | .ok (.taken place (.file _ content) _) => .ok (t.put place (.file mode content))
  | .ok _ => .ok t
  | .error f => .error f

/-- Removes a file or a link, never what a link leads to and never a directory. -/
def remove (t : FileTree) (p : Path) : Except FileFailure FileTree :=
  match t.lookup .occupy p with
  | .ok (.taken _ .directory _) => .error .isDirectory
  | .ok (.taken place _ slash) => if slash then .error .notDirectory else .ok (t.erase place)
  | .ok (.free ..) => .error .notFound
  | .error f => .error f

def makeDirectory (t : FileTree) (p : Path) : Except FileFailure FileTree :=
  match t.lookup .occupy p with
  | .ok (.free place _) => .ok (t.put place .directory)
  | .ok (.taken ..) => .error .exists
  | .error f => .error f

def makeLink (t : FileTree) (target p : Path) : Except FileFailure FileTree :=
  if target.text.toList.contains '\x00' then .error .nulInPath
  else if target.text.isEmpty then .error .notFound
  else if target.text.utf8ByteSize ≥ pathLimit then .error .nameTooLong
  else match t.lookup .occupy p with
    | .ok (.free place slash) =>
      if slash then .error .notFound else .ok (t.put place (.link target))
    | .ok (.taken ..) => .error .exists
    | .error f => .error f

def ways (p : Path) : List Path :=
  let start := if p.isAbsolute then "/" else ""
  (List.range p.steps.length).map fun n => ⟨start ++ "/".intercalate (p.steps.take (n + 1))⟩

def isDirectory (t : FileTree) (p : Path) : Bool :=
  match t.behind p with
  | .ok e => e.isDirectory
  | .error _ => false

def makeDirectories (t : FileTree) (p : Path) : Except FileFailure FileTree :=
  if p.text.isEmpty then .ok t
  else (ways p).foldlM (fun t way => if t.isDirectory way then .ok t else t.makeDirectory way) t

/-- Every entry below the working directory, by its names from there: a directory before what it
    holds, and names in the order of their bytes. -/
def listing (t : FileTree) : List (Location × Entry) :=
  let below := t.entries.filterMap fun (place, e) =>
    if t.cwd.isPrefixOf place && place.length > t.cwd.length then
      some (place.drop t.cwd.length, e)
    else none
  let key (names : Location) : List Bytes := names.map Text.Utf8.encode
  below.mergeSort fun a b => !(decide (key b.1 < key a.1))

end NetworkCa.FileTree
