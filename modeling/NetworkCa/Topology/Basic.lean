import NetworkCa.Identity.Basic

namespace NetworkCa

structure Topology where
  identities : List Identity
  deriving Repr, DecidableEq

namespace Topology

def environments : List String := ["env/bft/.", "env/raft/.", "env_local/raft/.", "samples/"]

def numbered (role : Role) (start : String) (count : Nat) : List Identity :=
  (List.range count).map fun n => Identity.make role ⟨s!"{start}/{n}/cert"⟩ none none

def deployment (start : String) : List Identity :=
  numbered .client (start ++ "clients") 5
    ++ [Identity.make .admin ⟨start ++ "clients/admin/cert"⟩ none none]
    ++ numbered .peer (start ++ "peers") 4
    ++ numbered .orderer (start ++ "orderers") 4

/-- The network that is issued when no other is given: the explorer, then every deployment. -/
def builtin : Topology where
  identities :=
    Identity.make .client ⟨"explorer/config/cert"⟩ none none :: environments.flatMap deployment

def rooted (root : Path) (t : Topology) : Topology := ⟨t.identities.map (·.rooted root)⟩

def environment (start : String) (t : Topology) : Topology :=
  ⟨t.identities.filter fun i => start.toList.isPrefixOf i.dir.text.toList⟩

theorem length_builtin : builtin.identities.length = 57 := by
  simp [builtin, environments, deployment, numbered]

@[simp] theorem length_rooted (root : Path) (t : Topology) :
    (t.rooted root).identities.length = t.identities.length := by
  simp [rooted]

end Topology

end NetworkCa
