namespace NetworkCa.Script

/-- Does a text match a pattern? A star that is not quoted stands for any text, and a question
    mark for any character. -/
def isMatch : List (Bool × Char) → List Char → Bool
  | [], s => s.isEmpty
  | (false, '*') :: rest, [] => isMatch rest []
  | (false, '*') :: rest, c :: cs => isMatch rest (c :: cs) || isMatch ((false, '*') :: rest) cs
  | (false, '?') :: rest, _ :: cs => isMatch rest cs
  | (_, p) :: rest, c :: cs => p = c && isMatch rest cs
  | _ :: _, [] => false
termination_by pattern s => pattern.length + s.length

end NetworkCa.Script
