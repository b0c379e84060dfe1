import NetworkCa.Text.Hex

namespace NetworkCa

inductive Address where
  | v4 (a b c d : UInt8)
  | v6 (groups : Vector UInt16 8)
  deriving Repr, DecidableEq

namespace Address

def groupOctets (g : UInt16) : Bytes := [(g >>> 8).toUInt8, g.toUInt8]

def octets : Address → Bytes
  | .v4 a b c d => [a, b, c, d]
  | .v6 groups => groups.toList.flatMap groupOctets

def printV4 (bytes : Bytes) : String := ".".intercalate (bytes.map toString)

def printGroups (groups : List UInt16) : String :=
  ":".intercalate (groups.map fun g => String.ofList (Text.hexDigits g.toNat))

/-- The start and the length of the first longest run of zeros from index `i` on, where `run`
    zeros stand right before `i`. -/
def longestRun (best : Nat × Nat) (run i : Nat) : List UInt16 → Nat × Nat
  | [] => best
  | g :: rest =>
    if g = 0 then
      let best := if run + 1 > best.2 then (i - run, run + 1) else best
      longestRun best (run + 1) (i + 1) rest
    else longestRun best 0 (i + 1) rest

def printV6 (groups : List UInt16) : String :=
  if groups.take 6 = [0, 0, 0, 0, 0, 0xFFFF] then
    "::ffff:" ++ printV4 ((groups.drop 6).flatMap groupOctets)
  else
    let (start, length) := longestRun (0, 0) 0 0 groups
    if length > 1 then
      printGroups (groups.take start) ++ "::" ++ printGroups (groups.drop (start + length))
    else printGroups groups

/-- The shortest usual form: the first longest run of two or more zero groups is left out, and an
    address that stands for one of four bytes ends in that. -/
def print : Address → String
  | .v4 a b c d => printV4 [a, b, c, d]
  | .v6 groups => printV6 groups.toList

end Address

end NetworkCa
