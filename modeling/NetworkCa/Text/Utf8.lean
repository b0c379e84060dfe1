namespace NetworkCa

abbrev Bytes := List UInt8

namespace Text.Utf8

def encodeChars (s : List Char) : Bytes := s.flatMap String.utf8EncodeChar

def encode (s : String) : Bytes := encodeChars s.toList

/-- What stands at one place of a byte sequence: a character, a start of `width` bytes that no
    character continues, or a character that the end of the input cuts off. -/
inductive Piece where
  | char (c : Char)
  | bad (width : Nat)
  | cut
  deriving Repr, DecidableEq

/-- For a first byte of a longer character: how many bytes follow, and the bounds of the next. -/
def lead (b : UInt8) : Option (Nat × UInt8 × UInt8) :=
  if 0xC2 ≤ b && b ≤ 0xDF then some (1, 0x80, 0xBF)
  else if b = 0xE0 then some (2, 0xA0, 0xBF)
  else if b = 0xED then some (2, 0x80, 0x9F)
  else if 0xE1 ≤ b && b ≤ 0xEF then some (2, 0x80, 0xBF)
  else if b = 0xF0 then some (3, 0x90, 0xBF)
  else if b = 0xF4 then some (3, 0x80, 0x8F)
  else if 0xF1 ≤ b && b ≤ 0xF3 then some (3, 0x80, 0xBF)
  else none

def isTail (b : UInt8) : Bool := 0x80 ≤ b && b ≤ 0xBF

def leadBits (more : Nat) (b : UInt8) : Nat :=
  match more with
  | 1 => b.toNat % 0x20
  | 2 => b.toNat % 0x10
  | _ => b.toNat % 0x08

def tailBits (value : Nat) (b : UInt8) : Nat := value * 64 + b.toNat % 64

/-- The piece that starts with the byte `b`, and how many of the bytes after `b` belong to it. A
    fault is as short as it can be; a character that is cut off takes all that is left. -/
def pieceAt (b : UInt8) (rest : Bytes) : Piece × Nat :=
  if b < 0x80 then (.char (Char.ofNat b.toNat), 0)
  else match lead b with
    | none => (.bad 1, 0)
    | some (more, lo, hi) =>
      match rest with
      | [] => (.cut, 0)
      | t1 :: rest =>
        if !(lo ≤ t1 && t1 ≤ hi) then (.bad 1, 0)
        else
          let v1 := tailBits (leadBits more b) t1
          if more = 1 then (.char (Char.ofNat v1), 1)
          else match rest with
            | [] => (.cut, 1)
            | t2 :: rest =>
              if !isTail t2 then (.bad 2, 1)
              else
                let v2 := tailBits v1 t2
                if more = 2 then (.char (Char.ofNat v2), 2)
                else match rest with
                  | [] => (.cut, 2)
                  | t3 :: _ =>
                    if !isTail t3 then (.bad 3, 2)
                    else (.char (Char.ofNat (tailBits v2 t3)), 3)

def piecesAfter : Nat → Bytes → List Piece
  | _, [] => []
  | taken + 1, _ :: rest => piecesAfter taken rest
  | 0, b :: rest =>
    let (piece, taken) := pieceAt b rest
    piece :: piecesAfter taken rest

def pieces (bytes : Bytes) : List Piece := piecesAfter 0 bytes

structure Fault where
  offset : Nat
  /-- How many bytes are at fault; none if the input ends within a character. -/
  width : Option Nat
  deriving Repr, DecidableEq

def Fault.message (f : Fault) : String :=
  match f.width with
  | some width => s!"invalid utf-8 sequence of {width} bytes from index {f.offset}"
  | none => s!"incomplete utf-8 byte sequence from index {f.offset}"

def collect (offset : Nat) : List Piece → Except Fault (List Char)
  | [] => .ok []
  | .char c :: rest => (collect (offset + c.utf8Size) rest).map (c :: ·)
  | .bad width :: _ => .error ⟨offset, some width⟩
  | .cut :: _ => .error ⟨offset, none⟩

def decode (bytes : Bytes) : Except Fault String :=
  (collect 0 (pieces bytes)).map String.ofList

def decode? (bytes : Bytes) : Option String := (decode bytes).toOption

def replacement : Char := '\uFFFD'

def decodeLossy (bytes : Bytes) : String :=
  String.ofList <| (pieces bytes).map fun
    | .char c => c
    | _ => replacement

end Text.Utf8

end NetworkCa
