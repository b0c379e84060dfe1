import NetworkCa.Crypto.P256
import NetworkCa.Crypto.Sha256
import NetworkCa.Der.Reader

namespace NetworkCa.Crypto

open P256

/-- A number from 1 to `P256.n - 1`, or none for bytes that spell no such number. -/
def scalar? (bytes : Bytes) : Option Nat :=
  let k := Der.natOfBytes bytes
  if 0 < k && k < n then some k else none

def scalarFrom (bytes : Bytes) : Nat := Der.natOfBytes bytes % (n - 1) + 1

structure Signature where
  r : Nat
  s : Nat
  deriving Repr, DecidableEq

namespace Signature

def hashNumber (message : Bytes) : Nat := Der.natOfBytes (Sha256.digest message)

/-- Signs a message with the secret `d` and a number `k` that is used once. -/
def sign (d k : Nat) (message : Bytes) : Option Signature := do
  let r := (← multiply k generator).x % n
  let s := inverse n k * ((hashNumber message + r * d) % n) % n
  if r = 0 || s = 0 then none else some ⟨r, s⟩

def verifies (key : Point) (message : Bytes) (sig : Signature) : Bool :=
  if sig.r = 0 || sig.r ≥ n || sig.s = 0 || sig.s ≥ n then false
  else
    let w := inverse n sig.s
    let u1 := hashNumber message * w % n
    let u2 := sig.r * w % n
    let sum := (Jacobian.multiply u1 (.ofPoint generator)).add (Jacobian.multiply u2 (.ofPoint key))
    match sum.toPoint? with
    | some q => q.x % n == sig.r
    | none => false

def bytes (sig : Signature) : Bytes := Der.sequence [Der.integer sig.r, Der.integer sig.s]

def positive : Der.Reader Nat := do
  match ← Der.Reader.content .integer with
  | [] => failure
  | [b] => if b < 128 then return b.toNat else failure
  | b :: c :: rest =>
    if b < 128 && !(b = 0 && c < 128) then return Der.natOfBytes (b :: c :: rest) else failure

def ofBytes? (bytes : Bytes) : Option Signature :=
  Der.readAll (Der.Reader.filling .sequence do return ⟨← positive, ← positive⟩) bytes

end Signature

end NetworkCa.Crypto
