import NetworkCa.Crypto.Signature

namespace NetworkCa

/-- A supply of bytes that nobody can guess who does not know its seed. -/
structure Entropy where
  seed : Bytes
  drawn : Nat
  deriving Repr, DecidableEq

namespace Entropy

def block (e : Entropy) : Bytes × Entropy :=
  (Crypto.Sha256.digest (e.seed ++ Crypto.P256.bytes32 e.drawn), { e with drawn := e.drawn + 1 })

def scalar (e : Entropy) : Nat × Entropy :=
  let (a, e) := e.block
  let (b, e) := e.block
  (Crypto.scalarFrom (a ++ b), e)

end Entropy

end NetworkCa
