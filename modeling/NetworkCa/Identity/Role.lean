namespace NetworkCa

inductive Role where
  | client
  | admin
  | peer
  | orderer
  deriving Repr, DecidableEq

namespace Role

def tag : Role → String
  | .client => "client"
  | .admin => "admin"
  | .peer => "peer"
  | .orderer => "orderer"

def all : List Role := [.client, .admin, .peer, .orderer]

def ofTag? (s : String) : Option Role := all.find? (·.tag = s)

theorem ofTag?_tag (r : Role) : ofTag? r.tag = some r := by cases r <;> decide

theorem tag_of_ofTag? {s : String} {r : Role} (h : ofTag? s = some r) : r.tag = s := by
  simpa using List.find?_some h

end Role

inductive KeyMethod where
  | ecc
  /-- RSA keys of 2048 bits under their historical tag. The authority's key has a passphrase. -/
  | dsa
  deriving Repr, DecidableEq

namespace KeyMethod

instance : Inhabited KeyMethod := ⟨.ecc⟩

def tag : KeyMethod → String
  | .ecc => "ecc"
  | .dsa => "dsa"

def all : List KeyMethod := [.ecc, .dsa]

def ofTag? (s : String) : Option KeyMethod := all.find? (·.tag = s)

def usesPassphrase : KeyMethod → Bool
  | .ecc => false
  | .dsa => true

theorem ofTag?_tag (m : KeyMethod) : ofTag? m.tag = some m := by cases m <;> decide

end KeyMethod

end NetworkCa
