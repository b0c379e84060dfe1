import NetworkCa.Der.Writer

namespace NetworkCa.Crypto.P256

def p : Nat := 0xffffffff00000001000000000000000000000000ffffffffffffffffffffffff

/-- The number of points of the curve, a prime. -/
def n : Nat := 0xffffffff00000000ffffffffffffffffbce6faada7179e84f3b9cac2fc632551

/-- The curve is the solutions of `y ^ 2 = x ^ 3 - 3 * x + b`. -/
def b : Nat := 0x5ac635d8aa3a93e7b3ebbd55769886bc651d06b0cc53b0f63bce3c3e27d2604b

structure Point where
  x : Nat
  y : Nat
  deriving Repr, DecidableEq

def generator : Point :=
  ⟨0x6b17d1f2e12c4247f8bce6e563a440f277037d812deb33a0f4a13945d898c296,
    0x4fe342e2fe1a7f9b8ee7eb4a7c0f9e162bce33576b315ececbb6406837bf51f5⟩

def Point.isOnCurve (q : Point) : Bool :=
  q.x < p && q.y < p && (q.y * q.y + 3 * q.x) % p == (q.x * q.x * q.x + b) % p

def power (modulus base exponent : Nat) : Nat :=
  if _h : exponent = 0 then 1 % modulus
  else
    let root := power modulus base (exponent / 2)
    let square := root * root % modulus
    if exponent % 2 = 1 then square * base % modulus else square
termination_by exponent
decreasing_by omega

def inverse (modulus a : Nat) : Nat := power modulus a (modulus - 2)

def sub (a c : Nat) : Nat := (a + p - c % p) % p

/-- A point `(x / z ^ 2, y / z ^ 3)`, or the point at infinity where `z` is zero. -/
structure Jacobian where
  x : Nat
  y : Nat
  z : Nat

namespace Jacobian

def infinity : Jacobian := ⟨1, 1, 0⟩

def ofPoint (q : Point) : Jacobian := ⟨q.x, q.y, 1⟩

def toPoint? (q : Jacobian) : Option Point :=
  if q.z = 0 then none
  else
    let i := inverse p q.z
    let i2 := i * i % p
    some ⟨q.x * i2 % p, q.y * (i2 * i % p) % p⟩

def double (q : Jacobian) : Jacobian :=
  if q.z = 0 || q.y = 0 then infinity
  else
    let z2 := q.z * q.z % p
    let y2 := q.y * q.y % p
    let s := 4 * q.x * y2 % p
    let m := 3 * (sub q.x z2 * (q.x + z2)) % p
    let x := sub (m * m) (2 * s)
    ⟨x, sub (m * sub s x) (8 * (y2 * y2)), 2 * q.y * q.z % p⟩

def add (q r : Jacobian) : Jacobian :=
  if q.z = 0 then r
  else if r.z = 0 then q
  else
    let qz2 := q.z * q.z % p
    let rz2 := r.z * r.z % p
    let u1 := q.x * rz2 % p
    let u2 := r.x * qz2 % p
    let s1 := q.y * (rz2 * r.z % p) % p
    let s2 := r.y * (qz2 * q.z % p) % p
    if u1 = u2 then if s1 = s2 then double q else infinity
    else
      let h := sub u2 u1
      let t := sub s2 s1
      let h2 := h * h % p
      let h3 := h2 * h % p
      let v := u1 * h2 % p
      let x := sub (t * t) (h3 + 2 * v)
      ⟨x, sub (t * sub v x) (s1 * h3), h * (q.z * r.z % p) % p⟩

def multiply (k : Nat) (q : Jacobian) : Jacobian :=
  if _h : k = 0 then infinity
  else
    let twice := double (multiply (k / 2) q)
    if k % 2 = 1 then add twice q else twice
termination_by k
decreasing_by omega

end Jacobian

def multiply (k : Nat) (q : Point) : Option Point := (Jacobian.multiply k (.ofPoint q)).toPoint?

def bytes32 (n : Nat) : Bytes :=
  let bytes := Der.bytesOfNat n
  List.replicate (32 - bytes.length) 0 ++ bytes

def Point.bytes (q : Point) : Bytes := 4 :: bytes32 q.x ++ bytes32 q.y

def Point.ofBytes? : Bytes → Option Point
  | [] => none
  | form :: coordinates =>
    let q : Point := ⟨Der.natOfBytes (coordinates.take 32), Der.natOfBytes (coordinates.drop 32)⟩
    if form = 4 && coordinates.length = 64 && q.isOnCurve then some q else none

end NetworkCa.Crypto.P256
