import NetworkCa.Certificate.Fault
import NetworkCa.Pem.Printer

namespace NetworkCa

open Der (Oid)

inductive KeyKind where
  | rsaSha256
  | rsaSha384
  | rsaSha512
  | p256
  | p384
  | ed25519
  deriving Repr, DecidableEq

namespace KeyKind

def all : List KeyKind := [.rsaSha256, .rsaSha384, .rsaSha512, .p256, .p384, .ed25519]

def null : Der.Element := ⟨.null, []⟩

def curve (oid : Oid) : Der.Element := ⟨.objectIdentifier, oid.content⟩

def keyAlgorithm : KeyKind → Algorithm
  | .rsaSha256 | .rsaSha384 | .rsaSha512 => ⟨.rsaEncryption, some null⟩
  | .p256 => ⟨.ecPublicKey, some (curve .prime256)⟩
  | .p384 => ⟨.ecPublicKey, some (curve .secp384)⟩
  | .ed25519 => ⟨.ed25519, none⟩

def signatureAlgorithm : KeyKind → Algorithm
  | .rsaSha256 => ⟨.sha256WithRsa, some null⟩
  | .rsaSha384 => ⟨.sha384WithRsa, some null⟩
  | .rsaSha512 => ⟨.sha512WithRsa, some null⟩
  | .p256 => ⟨.ecdsaWithSha256, none⟩
  | .p384 => ⟨.ecdsaWithSha384, none⟩
  | .ed25519 => ⟨.ed25519, none⟩

def ofSignature? (oid : Oid) : Option KeyKind := all.find? (·.signatureAlgorithm.oid = oid)

end KeyKind

/-- Key pairs, and what is done with them and with the public keys of others. The functions stand
    for a library of ciphers: no theorem about certificates rests on how they compute. -/
structure KeyScheme (κ : Type) where
  ofSecret? : Nat → Option κ
  ofBytes? : Bytes → Option κ
  bytes : κ → Bytes
  kind : κ → KeyKind
  publicBytes : κ → Bytes
  /-- A signature of a message, with a number that is used once. Not every pair can make one. -/
  sign : κ → Nat → Bytes → Option Bytes
  /-- Can the certificate of an authority be signed anew with the pair? -/
  resigns : κ → Certificate → Bool
  confirms : PublicKey → Algorithm → Bytes → Bytes → Bool

namespace KeyScheme

variable {κ : Type} (keys : KeyScheme κ)

def label : String := "PRIVATE KEY"

def publicKey (pair : κ) : PublicKey := ⟨(keys.kind pair).keyAlgorithm, keys.publicBytes pair⟩

def print (pair : κ) : Bytes := (Pem.Block.mk label (keys.bytes pair)).print

/-- The pair in the first block of a text, whatever the block's label says. -/
def ofText (text : String) : Except MaterialFault κ :=
  match Pem.first (Text.Utf8.encode text) with
  | .error fault => .error (.pem fault)
  | .ok block =>
    match keys.ofBytes? block.contents with
    | some pair => .ok pair
    | none => .error .keyPair

def signed (pair : κ) (once : Nat) (statement : Bytes) : Except MaterialFault Bytes :=
  match keys.sign pair once statement with
  | some signature => .ok <|
    Der.sequence [statement, (keys.kind pair).signatureAlgorithm.bytes, Der.bitString signature]
  | none => .error .signature

end KeyScheme

end NetworkCa
