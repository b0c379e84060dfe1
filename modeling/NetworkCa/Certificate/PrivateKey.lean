import NetworkCa.Certificate.KeyScheme

namespace NetworkCa

open Der (Oid)

structure KeyPair where
  secret : Nat
  point : Crypto.P256.Point
  deriving Repr, DecidableEq

namespace KeyPair

def ofSecret? (secret : Nat) : Option KeyPair :=
  (Crypto.P256.multiply secret Crypto.P256.generator).map (⟨secret, ·⟩)

def algorithm : Bytes :=
  Der.objectIdentifier .ecPublicKey ++ Der.objectIdentifier .prime256

def bytes (k : KeyPair) : Bytes :=
  Der.sequence [Der.integer 0, Der.write .sequence algorithm,
    Der.octetString (Der.sequence [Der.integer 1, Der.octetString (Crypto.P256.bytes32 k.secret),
      Der.write (.explicit 1) (Der.bitString k.point.bytes)])]

def optional (t : Der.Tag) : Der.Reader (Option Bytes) :=
  Der.Reader.maybe (Der.Reader.canonical t)

def require (b : Bool) : Der.Reader Unit := if b then pure () else failure

def nothingMore : Der.Reader Unit := do require (← Der.Reader.atEnd)

def secretReader : Der.Reader KeyPair := do
  require ((← Der.Reader.canonical .integer) = [1])
  let secret ← Der.Reader.canonical .octetString
  match ← optional (.explicit 0) with
  | some curve => require (curve = Der.objectIdentifier .prime256)
  | none => pure ()
  let wrapped ← Der.Reader.canonical (.explicit 1)
  nothingMore
  let point ← (Der.readAll (Der.Reader.canonical .bitString) wrapped : Option Bytes)
  require (secret.length = 32)
  let pair ← ((Crypto.scalar? secret).bind ofSecret? : Option KeyPair)
  require (point = 0 :: pair.point.bytes)
  return pair

def fileReader : Der.Reader KeyPair := do
  require ((← Der.Reader.canonical .integer) = [0])
  require ((← Der.Reader.canonical .sequence) = algorithm)
  let inner ← Der.Reader.canonical .octetString
  let _ ← optional (.explicit 0)
  nothingMore
  let body ← (Der.readAll (Der.Reader.canonical .sequence) inner : Option Bytes)
  (Der.readAll secretReader body : Option KeyPair)

def ofBytes? (bytes : Bytes) : Option KeyPair := do
  Der.readAll fileReader (← Der.readAll (Der.Reader.canonical .sequence) bytes)

end KeyPair

def KeyScheme.p256 : KeyScheme KeyPair where
  ofSecret? := KeyPair.ofSecret?
  ofBytes? := KeyPair.ofBytes?
  bytes := KeyPair.bytes
  kind _ := .p256
  publicBytes pair := pair.point.bytes
  sign pair once message := (Crypto.Signature.sign pair.secret once message).map (·.bytes)
  resigns _ _ := true
  confirms key algorithm := key.confirms algorithm.oid

end NetworkCa
