import NetworkCa.Text.Blank
import NetworkCa.Text.Split

namespace NetworkCa

inductive Attribute where
  | country
  | state
  | locality
  | organization
  | organizationalUnit
  | commonName
  deriving Repr, DecidableEq

namespace Attribute

def shortName : Attribute → String
  | .country => "C"
  | .state => "ST"
  | .locality => "L"
  | .organization => "O"
  | .organizationalUnit => "OU"
  | .commonName => "CN"

def all : List Attribute :=
  [.country, .state, .locality, .organization, .organizationalUnit, .commonName]

def ofShortName? (s : String) : Option Attribute := all.find? (·.shortName = s)

theorem ofShortName?_shortName (a : Attribute) : ofShortName? a.shortName = some a := by
  cases a <;> decide

end Attribute

structure Subject where
  attributes : List (Attribute × String)
  deriving Repr, DecidableEq

inductive SubjectError where
  | missingLeadingSlash (text : String)
  | empty
  | malformedComponent (component : String)
  | unknownAttribute (key : String)
  deriving Repr, DecidableEq

def SubjectError.message : SubjectError → String
  | .missingLeadingSlash text => s!"subject must start with '/': {text}"
  | .empty => "subject is empty"
  | .malformedComponent component =>
    s!"subject component '{component}' is not of the form KEY=VALUE"
  | .unknownAttribute key =>
    s!"unsupported subject attribute '{key}' (expected C, ST, L, O, OU or CN)"

namespace Subject

/-- The texts between slashes, with the backslashes taken away. A backslash makes the next
    character, also a slash, part of the text; a last one stands for itself. -/
def components : List Char → List (List Char)
  | [] => [[]]
  | ['\\'] => [['\\']]
  | '\\' :: c :: rest => onHead c (components rest)
  | '/' :: rest => [] :: components rest
  | c :: rest => onHead c (components rest)
where
  onHead (c : Char) : List (List Char) → List (List Char)
    | [] => [[c]]
    | first :: more => (c :: first) :: more

def component (text : List Char) : Except SubjectError (Option (Attribute × String)) :=
  if text.isEmpty then .ok none
  else match Text.splitOnce '=' text with
    | none => .error (.malformedComponent (String.ofList text))
    | some (before, value) =>
      let key := String.ofList (Text.trim before)
      match Attribute.ofShortName? key with
      | none => .error (.unknownAttribute key)
      | some a => .ok (if value.isEmpty then none else some (a, String.ofList value))

def parseChars (text : List Char) : Except SubjectError Subject :=
  match text with
  | '/' :: body => do
    match (← (components body).mapM component).filterMap id with
    | [] => throw .empty
    | attributes => return ⟨attributes⟩
  | _ => .error (.missingLeadingSlash (String.ofList text))

def parse (text : String) : Except SubjectError Subject := parseChars text.toList

def escapedValue (value : List Char) : List Char :=
  value.flatMap fun c => if c = '/' then ['\\', '/'] else [c]

def printAttribute (a : Attribute × String) : List Char :=
  '/' :: a.1.shortName.toList ++ '=' :: escapedValue a.2.toList

def print (s : Subject) : String := String.ofList (s.attributes.flatMap printAttribute)

def get? (s : Subject) (a : Attribute) : Option String := s.attributes.lookup a

end Subject

end NetworkCa
