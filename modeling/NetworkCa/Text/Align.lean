namespace NetworkCa.Text

inductive Alignment where
  | left
  | right
  | center
  deriving Repr, DecidableEq

/-- A text widened to `width` characters; a longer text stays as it is, and an odd blank of a
    centred text goes to its right. -/
def alignWith (fill : Char) (side : Alignment) (width : Nat) (s : String) : String :=
  let missing := width - s.length
  let room := match side with
    | .left => (0, missing)
    | .right => (missing, 0)
    | .center => (missing / 2, missing - missing / 2)
  String.ofList (List.replicate room.1 fill ++ s.toList ++ List.replicate room.2 fill)

def align (side : Alignment) (width : Nat) (s : String) : String := alignWith ' ' side width s

def cut (length : Nat) (s : String) : String := String.ofList (s.toList.take length)

def digits (width : Nat) (n : Nat) : String := alignWith '0' .right width (toString n)

end NetworkCa.Text
