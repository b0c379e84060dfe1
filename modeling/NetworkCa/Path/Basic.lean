import NetworkCa.Text.Split

namespace NetworkCa

/-- A path as it was written. Two spellings of one place are different paths. -/
structure Path where
  text : String
  deriving Repr, DecidableEq

namespace Path

instance : Inhabited Path := ⟨⟨""⟩⟩

def ofString (s : String) : Path := ⟨s⟩

def isAbsolute (p : Path) : Bool := p.text.toList.head? == some '/'

/-- `q` seen from `p`: an absolute `q` stands for itself, and one slash separates the two unless
    `p` is empty or ends in one. -/
def join (p q : Path) : Path :=
  if q.isAbsolute then q
  else match p.text.toList.getLast? with
    | none => q
    | some '/' => ⟨p.text ++ q.text⟩
    | some _ => ⟨p.text ++ "/" ++ q.text⟩

def file (p : Path) (name : String) : Path := p.join ⟨name⟩

def segments (p : Path) : List String := (Text.splitOn '/' p.text.toList).map String.ofList

def steps (p : Path) : List String := p.segments.filter (· ≠ "")

def endsInSlash (p : Path) : Bool := p.text.toList.getLast? == some '/'

inductive Component where
  | root
  | current
  | parent
  | name (s : String)
  deriving Repr, DecidableEq

def Component.ofStep (s : String) : Component :=
  if s = "." then .current else if s = ".." then .parent else .name s

/-- The components of a path. Doubled slashes and inner dots leave no component; a dot counts only
    where a relative path starts with it. -/
def components (p : Path) : List Component :=
  let parts := p.steps.map Component.ofStep
  let inner := parts.filter (· ≠ .current)
  if p.isAbsolute then .root :: inner
  else if parts.head? = some .current then .current :: inner
  else inner

def sameComponents (p q : Path) : Bool := p.components = q.components

def fileName? (p : Path) : Option String :=
  match p.components.getLast? with
  | some (.name s) => some s
  | _ => none

end Path

end NetworkCa
