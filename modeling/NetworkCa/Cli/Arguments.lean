import NetworkCa.Identity.Role

namespace NetworkCa.Cli

inductive ValueKind where
  | flag
  | text
  | path
  | method
  | role
  | backend
  | number
  deriving Repr, DecidableEq

inductive Backend where
  | native
  | openssl
  deriving Repr, DecidableEq

def Backend.ofTag? : String → Option Backend
  | "native" => some .native
  | "openssl" => some .openssl
  | _ => none

def digits (text : String) : List Char :=
  match text.toList with
  | '+' :: rest => rest
  | s => s

def number? (text : String) : Option Nat :=
  let s := digits text
  if s.isEmpty || !(s.all fun c => '0' ≤ c && c ≤ '9') then none
  else
    let n := s.foldl (fun n c => 10 * n + (c.toNat - 48)) 0
    if n < 18446744073709551616 then some n else none

def ValueKind.accepts : ValueKind → String → Bool
  | .flag, _ => false
  | .text, _ => true
  | .path, s => s ≠ ""
  | .method, s => (KeyMethod.ofTag? s).isSome
  | .role, s => (Role.ofTag? s).isSome
  | .backend, s => (Backend.ofTag? s).isSome
  | .number, s => (number? s).isSome

abbrev OptionTable := List (String × ValueKind)

def globalOptions : OptionTable :=
  [("method", .method), ("ca-dir", .path), ("ca-filename", .text), ("dsa-password", .text),
    ("ca-config", .path), ("ca-subject", .text), ("backend", .backend), ("openssl", .text),
    ("command-timeout", .number)]

def leafOptions : OptionTable := [("config", .path), ("subject", .text), ("shortest-links", .flag)]

def topologyOptions : OptionTable := [("root", .path), ("topology", .path), ("env", .text)]

def commandOptions : List (String × OptionTable) :=
  [("ca", []), ("list", []),
    ("auth", [("dir", .path), ("name", .text), ("role", .role), ("ca-link", .text)] ++ leafOptions),
    ("all", topologyOptions ++ [("regenerate-ca", .flag), ("strict", .flag)] ++ leafOptions),
    ("topology", topologyOptions)]

/-- The options that were given, with their values. A flag has an empty value. -/
abbrev Given := List (String × String)

inductive Usage where
  | help
  | wrong
  deriving Repr, DecidableEq

def cutOption (text : List Char) : String × Option String :=
  let name := String.ofList (text.takeWhile (· != '='))
  match text.dropWhile (· != '=') with
  | _ :: value => (name, some (String.ofList value))
  | [] => (name, none)

def isFreeValue (s : String) : Bool :=
  match s.toList with
  | ['-'] => true
  | '-' :: _ => false
  | _ => true

def give (given : Given) (kind : ValueKind) (name value : String) : Except Usage Given :=
  if (given.lookup name).isSome then .error .wrong
  else if kind = .flag || kind.accepts value then .ok (given ++ [(name, value)])
  else .error .wrong

def scan (table : OptionTable) (given : Given) : List String → Except Usage (Given × List String)
  | [] => .ok (given, [])
  | argument :: rest =>
    match argument.toList with
    | ['-', '-'] => if rest.isEmpty then .ok (given, []) else .error .wrong
    | ['-', 'h'] => .error .help
    | '-' :: '-' :: body =>
      let (name, attached) := cutOption body
      match name, table.lookup name, attached with
      | "help", _, none => .error .help
      | _, none, _ => .error .wrong
      | _, some .flag, none => do scan table (← give given .flag name "") rest
      | _, some .flag, some _ => .error .wrong
      | _, some kind, some value => do scan table (← give given kind name value) rest
      | _, some kind, none =>
        match rest with
        | value :: rest =>
          if isFreeValue value then do scan table (← give given kind name value) rest
          else .error .wrong
        | [] => .error .wrong
    | '-' :: _ :: _ => .error .wrong
    | _ => .ok (given, argument :: rest)

/-- The name of a command and every option for it. An option after the command counts more than
    the same one before it. -/
def parseOptions (arguments : List String) : Except Usage (String × Given) := do
  match ← scan globalOptions [] arguments with
  | (_, []) => throw .wrong
  | (before, name :: rest) =>
    match commandOptions.lookup name with
    | none => throw (if name = "help" then .help else .wrong)
    | some table =>
      match ← scan (globalOptions ++ table) [] rest with
      | (after, []) => return (name, after ++ before)
      | _ => throw .wrong

end NetworkCa.Cli
