import NetworkCa.Identity.Basic
import NetworkCa.Subject.Basic

namespace NetworkCa.Subject

def nameMark : List Char := ['\x7b', 'n', 'a', 'm', 'e', '\x7d']

def roleMark : List Char := ['\x7b', 'r', 'o', 'l', 'e', '\x7d']

/-- A template with the identity's name for every name mark, and then its role for every role
    mark, those in the name included. -/
def render (template : String) (i : Identity) : String :=
  String.ofList <|
    Text.replace roleMark i.role.tag.toList (Text.replace nameMark i.name.toList template.toList)

def forIdentity (template : String) (i : Identity) : Except SubjectError Subject :=
  parse (render template i)

end NetworkCa.Subject
