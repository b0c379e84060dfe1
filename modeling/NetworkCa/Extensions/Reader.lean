import NetworkCa.Extensions.Basic
import NetworkCa.FileTree.Operations
import NetworkCa.Text.Blank

namespace NetworkCa

inductive ExtensionError where
  | unreadable (path : Path) (failure : FileFailure)
  | badLine (number : Nat) (text : String)
  | unknownKeyUsage (name : String)
  | unknownExtendedKeyUsage (name : String)
  | invalidAltName (entry : String)
  | missingSection (name : String)
  deriving Repr, DecidableEq

def ExtensionError.message : ExtensionError → String
  | .unreadable path failure =>
    s!"failed to read extension file {path.text}: {failure.message}"
  | .badLine number text => s!"line {number}: expected `key = value` or `[section]`, got '{text}'"
  | .unknownKeyUsage name => s!"unknown keyUsage '{name}'"
  | .unknownExtendedKeyUsage name => s!"unknown extendedKeyUsage '{name}'"
  | .invalidAltName entry => s!"invalid subjectAltName entry '{entry}'"
  | .missingSection name => s!"section [{name}] referenced by subjectAltName does not exist"

namespace LeafExtensions

/-- One setting of an extension file. The settings before any header are in the section whose name
    is empty. -/
structure Setting where
  heading : List Char
  key : List Char
  value : List Char
  deriving Repr, DecidableEq

inductive Line where
  | blank
  | header (name : List Char)
  | setting (key value : List Char)
  | bad
  deriving Repr, DecidableEq

def headerName? (text : List Char) : Option (List Char) := do
  let inner ← Text.dropPrefix? ['['] text
  return Text.trim (← Text.dropSuffix? [']'] inner)

def Line.read (raw : List Char) : Line :=
  let text := Text.trim (Text.before '#' raw)
  if text.isEmpty then .blank
  else match headerName? text with
    | some name => .header name
    | none =>
      match Text.splitOnce '=' text with
      | some (key, value) => .setting (Text.trim key) (Text.trim value)
      | none => .bad

def settings (heading : List Char) (number : Nat) :
    List (List Char) → Except ExtensionError (List Setting)
  | [] => .ok []
  | raw :: rest =>
    match Line.read raw with
    | .blank => settings heading (number + 1) rest
    | .header name => settings name (number + 1) rest
    | .setting key value => (settings heading (number + 1) rest).map (⟨heading, key, value⟩ :: ·)
    | .bad => .error (.badLine number (String.ofList raw))

/-- The values between commas, without empty ones and the mark of a critical extension. -/
def tokens (value : List Char) : List (List Char) :=
  ((Text.splitOn ',' value).map Text.trim).filter fun t => !t.isEmpty && t ≠ "critical".toList

def lowered (text : List Char) : List Char := text.map Char.toLower

def readKeyUsage (token : List Char) : Except ExtensionError KeyUsage :=
  let name := String.ofList token
  match KeyUsage.ofName? name with
  | some u => .ok u
  | none => .error (.unknownKeyUsage name)

def readExtendedKeyUsage (token : List Char) : Except ExtensionError ExtendedKeyUsage :=
  let name := String.ofList token
  match ExtendedKeyUsage.ofName? name with
  | some u => .ok u
  | none => .error (.unknownExtendedKeyUsage name)

def isAscii (text : List Char) : Bool := text.all (·.toNat < 128)

def altName (kind value : List Char) : Except ExtensionError AltName :=
  let invalid : Except ExtensionError AltName :=
    .error (.invalidAltName (String.ofList (kind ++ ':' :: value)))
  let name := Text.trim value
  if Text.trim kind = "DNS".toList then
    if isAscii name then .ok (.dns (String.ofList name)) else invalid
  else if Text.trim kind = "IP".toList then
    match Address.parse? name with
    | some address => .ok (.ip address)
    | none => invalid
  else invalid

def altNamesOf (all : List Setting) (token : List Char) : Except ExtensionError (List AltName) :=
  match Text.dropPrefix? ['@'] token with
  | some name =>
    match all.filter (·.heading = name) with
    | [] => .error (.missingSection (String.ofList name))
    | found => found.mapM fun s => altName (Text.before '.' s.key) s.value
  | none =>
    match Text.splitOnce ':' token with
    | some (kind, value) => (altName kind value).map ([·])
    | none => .error (.invalidAltName (String.ofList token))

def apply (all : List Setting) (e : LeafExtensions) (s : Setting) :
    Except ExtensionError LeafExtensions :=
  if s.key = "basicConstraints".toList then
    .ok { e with isCa := (tokens s.value).any fun t => lowered t = "ca:true".toList }
  else if s.key = "keyUsage".toList then do
    return { e with keyUsages := ← (tokens s.value).mapM readKeyUsage }
  else if s.key = "extendedKeyUsage".toList then do
    return { e with extendedKeyUsages := ← (tokens s.value).mapM readExtendedKeyUsage }
  else if s.key = "subjectAltName".toList then do
    return { e with altNames := (← (tokens s.value).mapM (altNamesOf all)).flatten }
  else if s.key = "authorityKeyIdentifier".toList then
    .ok { e with authorityKeyIdentifier := true }
  else .ok e

def parse (text : String) : Except ExtensionError LeafExtensions := do
  let all ← settings [] 1 (Text.lines text.toList)
  (all.filter (·.heading.isEmpty)).foldlM (apply all) default

def load (t : FileTree) : Option Path → Except ExtensionError LeafExtensions
  | none => .ok default
  | some path =>
    match t.readText path with
    | .ok text => parse text
    | .error failure => .error (.unreadable path failure)

end LeafExtensions

end NetworkCa
