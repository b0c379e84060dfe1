import NetworkCa.FileTree.Basic
import NetworkCa.FileTree.Failure

namespace NetworkCa.FileTree

/-- What a path is looked up for, which decides how its last name is treated. -/
inductive Purpose where
  | inspect
  | reach
  /-- A file to write, which may come into being at the end of a link. -/
  | write
  | occupy
  deriving Repr, DecidableEq

/-- The end of a lookup: an entry, or a free place in an existing directory. -/
inductive Spot where
  | taken (place : Location) (e : Entry) (slash : Bool)
  | free (place : Location) (slash : Bool)
  deriving Repr, DecidableEq

def maxLinks : Nat := 40

def maxName : Nat := 255

def pathLimit : Nat := 4096

def linkStart (here : Location) (target : Path) : Location :=
  if target.isAbsolute then [] else here

def Purpose.follows (p : Purpose) (slash : Bool) : Bool :=
  match p with
  | .inspect => slash
  | .reach => true
  | .write => true
  | .occupy => false

def arrive (purpose : Purpose) (place : Location) (slash : Bool) (found : Option Entry) :
    Except FileFailure Spot :=
  match found, purpose with
  | none, .write => .ok (.free place slash)
  | none, .occupy => .ok (.free place slash)
  | none, _ => .error .notFound
  | some e, .write => .ok (.taken place e slash)
  | some e, .occupy => .ok (.taken place e slash)
  | some e, _ =>
    if slash && !e.isDirectory then .error .notDirectory else .ok (.taken place e slash)

inductive Move where
  | halt (result : Except FileFailure Spot)
  | enter (directory : Location)
  | jump (start : Location) (names : List String) (slash : Bool)
  deriving Repr

def refusal? (purpose : Purpose) (name : String) (rest : List String) (slash : Bool) :
    Option FileFailure :=
  if rest.isEmpty && slash && purpose == .write then some .isDirectory
  else if name.utf8ByteSize > maxName then some .nameTooLong
  else none

def meet (purpose : Purpose) (here place : Location) (rest : List String) (slash : Bool) :
    Option Entry → Move
  | some (.link target) =>
    if rest.isEmpty then
      if purpose.follows slash then
        .jump (linkStart here target) target.steps (slash || target.endsInSlash)
      else .halt (arrive purpose place slash (some (.link target)))
    else .jump (linkStart here target) (target.steps ++ rest) slash
  | some .directory =>
    if rest.isEmpty then .halt (arrive purpose place slash (some .directory)) else .enter place
  | some (.file mode content) =>
    .halt <|
      if rest.isEmpty then arrive purpose place slash (some (.file mode content))
      else .error .notDirectory
  | none => .halt (if rest.isEmpty then arrive purpose place slash none else .error .notFound)

def move (t : FileTree) (purpose : Purpose) (here : Location) (name : String) (rest : List String)
    (slash : Bool) : Move :=
  if name = "." then .enter here
  else if name = ".." then .enter here.parent
  else match refusal? purpose name rest slash with
    | some failure => .halt (.error failure)
    | none => meet purpose here (here ++ [name]) rest slash (t.get? (here ++ [name]))

/-- Walks from the directory `here` along the names of a path. What a link leads to is up to
    `along`. -/
def walkWith (t : FileTree) (purpose : Purpose)
    (along : Location → List String → Bool → Except FileFailure Spot) (slash : Bool)
    (here : Location) : List String → Except FileFailure Spot
  | [] => .ok (.taken here .directory slash)
  | name :: rest =>
    match t.move purpose here name rest slash with
    | .halt result => result
    | .enter directory => t.walkWith purpose along slash directory rest
    | .jump start names slash => along start names slash

def walk (t : FileTree) (purpose : Purpose) (links : Nat) (here : Location) (names : List String)
    (slash : Bool) : Except FileFailure Spot :=
  match links with
  | 0 => t.walkWith purpose (fun _ _ _ => .error .linkLoop) slash here names
  | links + 1 => t.walkWith purpose (t.walk purpose links) slash here names

def lookup (t : FileTree) (purpose : Purpose) (p : Path) : Except FileFailure Spot :=
  if p.text.toList.contains '\x00' then .error .nulInPath
  else if p.text.isEmpty then .error .notFound
  else if p.text.utf8ByteSize ≥ pathLimit then .error .nameTooLong
  else t.walk purpose maxLinks (if p.isAbsolute then [] else t.cwd) p.steps p.endsInSlash

end NetworkCa.FileTree
