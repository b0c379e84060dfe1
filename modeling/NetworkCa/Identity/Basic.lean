import NetworkCa.Identity.Role
import NetworkCa.Path.Basic

namespace NetworkCa

structure Identity where
  role : Role
  dir : Path
  name : String
  caLink : String
  deriving Repr, DecidableEq

namespace Identity

def defaultCaLink : String := "CA.pem"

/-- An identity that is named after its role, except for the names that are given. -/
def make (role : Role) (dir : Path) (name caLink : Option String) : Identity where
  role := role
  dir := dir
  name := name.getD role.tag
  caLink := caLink.getD defaultCaLink

def rooted (root : Path) (i : Identity) : Identity := { i with dir := root.join i.dir }

/-- Are two identities the same up to the spelling of their directories? -/
def same (i j : Identity) : Bool :=
  i.role = j.role && i.dir.sameComponents j.dir && i.name = j.name && i.caLink = j.caLink

end Identity

end NetworkCa
