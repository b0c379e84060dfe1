import NetworkCa.Identity.Json
import NetworkCa.Topology.Basic

namespace NetworkCa

inductive TopologyError where
  | unknownRole (tag : String)
  | unknownKeyMethod (tag : String)
  | invalid (failure : Json.Failure)
  deriving Repr, DecidableEq

def TopologyError.message : TopologyError → String
  | .unknownRole tag => s!"Unknown role: {tag} (expected client, admin, peer or orderer)"
  | .unknownKeyMethod tag => s!"Unknown key method: {tag} (expected ecc or dsa)"
  | .invalid failure => s!"Invalid topology: {failure.message}"

def Role.parse (tag : String) : Except TopologyError Role :=
  match ofTag? tag with
  | some r => .ok r
  | none => .error (.unknownRole tag)

def KeyMethod.parse (tag : String) : Except TopologyError KeyMethod :=
  match ofTag? tag with
  | some m => .ok m
  | none => .error (.unknownKeyMethod tag)

namespace Topology

def json (t : Topology) : String := String.ofList (Json.array (t.identities.map Identity.json))

def parse (text : String) : Except TopologyError Topology :=
  match Json.Reader.run (Json.Reader.list Identity.reader) text with
  | .ok identities => .ok ⟨identities⟩
  | .error failure => .error (.invalid failure)

end Topology

end NetworkCa
