import NetworkCa.Identity.Basic
import NetworkCa.Json.Printer
import NetworkCa.Json.Value

namespace NetworkCa

open Json Json.Reader

def Role.json (r : Role) : List Char := quoted r.tag

def Role.reader : Reader Role := variant (Role.all.map Role.tag) Role.ofTag?

def KeyMethod.json (m : KeyMethod) : List Char := quoted m.tag

def KeyMethod.reader : Reader KeyMethod :=
  variant (KeyMethod.all.map KeyMethod.tag) KeyMethod.ofTag?

namespace Identity

def json (i : Identity) : List Char :=
  object [("role", i.role.json), ("dir", quoted i.dir.text), ("name", quoted i.name),
    ("ca_link", quoted i.caLink)]

/-- The members read so far. A member that may be null counts as read even when it is. -/
structure Members where
  role : Option Role := none
  dir : Option Path := none
  name : Option (Option String) := none
  caLink : Option (Option String) := none

def dirReader : Reader Path := do return Path.ofString (← textValue "path string")

def nameReader : Reader (Option String) := optional (textValue "a string")

def once {α : Type} (key : String) (read : Option α) (r : Reader α) : Reader α := do
  if read.isSome then failSomewhere (.duplicateField key)
  colon
  r

def member (key : String) (m : Members) : Reader Members := do
  if key = "role" then return { m with role := some (← once key m.role Role.reader) }
  else if key = "dir" then return { m with dir := some (← once key m.dir dirReader) }
  else if key = "name" then return { m with name := some (← once key m.name nameReader) }
  else if key = "ca_link" then return { m with caLink := some (← once key m.caLink nameReader) }
  else
    colon
    skipValue
    return m

def members (m : Members) (first : Bool) : Nat → Reader Members
  | 0 => return m
  | fuel + 1 => do
    if ← moreKeys first then
      let key ← text
      members (← member key m) false fuel
    else return m

def ofMembers (m : Members) : Reader Identity :=
  match m.role, m.dir with
  | none, _ => failSomewhere (.missingField "role")
  | _, none => failSomewhere (.missingField "dir")
  | some role, some dir => return make role dir m.name.join m.caLink.join

def objectBody : Reader Identity := do
  drop
  ofMembers (← members {} true (← budget))

def place {α : Type} (first : Bool) (r : Reader α) : Reader (Option α) := do
  if ← moreElements first then return some (← r) else return none

def neededPlace {α : Type} (index : Nat) (r : Reader α) : Reader α := do
  match ← place (index = 0) r with
  | some a => return a
  | none => failSomewhere (.wrongLength index "struct IdentityEntry with 4 elements")

def listBody : Reader Identity := do
  drop
  let role ← neededPlace 0 Role.reader
  let dir ← neededPlace 1 dirReader
  let name ← place false nameReader
  let caLink ← place false nameReader
  return make role dir name.join caLink.join

def reader : Reader Identity := do
  match ← valueStart with
  | '\x7b' => located (enclosed objectBody objectEnd)
  | '[' => located (enclosed listBody listEnd)
  | _ => wrongType "struct IdentityEntry"

end Identity

end NetworkCa
