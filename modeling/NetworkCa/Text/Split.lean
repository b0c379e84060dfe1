namespace NetworkCa.Text

def splitOn (sep : Char) : List Char → List (List Char)
  | [] => [[]]
  | c :: cs =>
    if c = sep then [] :: splitOn sep cs
    else match splitOn sep cs with
      | [] => [[c]]
      | piece :: pieces => (c :: piece) :: pieces

def splitOnce (sep : Char) : List Char → Option (List Char × List Char)
  | [] => none
  | c :: cs =>
    if c = sep then some ([], cs)
    else (splitOnce sep cs).map fun (before, after) => (c :: before, after)

def before (sep : Char) (s : List Char) : List Char := s.takeWhile (· != sep)

def dropSuffix? (suffix s : List Char) : Option (List Char) :=
  if suffix.isSuffixOf s then some (s.take (s.length - suffix.length)) else none

def dropPrefix? (start s : List Char) : Option (List Char) :=
  if start.isPrefixOf s then some (s.drop start.length) else none

def dropReturn (line : List Char) : List Char :=
  if line.getLast? = some '\r' then line.dropLast else line

/-- The lines of a text. A line ends in a newline, with or without a carriage return before it;
    a last line without a newline is kept as it stands. -/
def linesOf : List (List Char) → List (List Char)
  | [] => []
  | [last] => if last.isEmpty then [] else [last]
  | line :: next :: more => dropReturn line :: linesOf (next :: more)

def lines (s : List Char) : List (List Char) := linesOf (splitOn '\n' s)

/-- Every occurrence of `old`, from the left and without overlap, replaced by `new`.
    An empty `old` occurs nowhere. -/
def replace (old new : List Char) (s : List Char) : List Char :=
  match s with
  | [] => []
  | c :: cs =>
    if _h : old ≠ [] ∧ old.isPrefixOf (c :: cs) = true then
      new ++ replace old new ((c :: cs).drop old.length)
    else c :: replace old new cs
termination_by s.length
decreasing_by
  · have : 0 < old.length := List.length_pos_iff.mpr _h.1
    simp only [List.length_drop, List.length_cons]
    omega
  · simp

def contains (part : List Char) : List Char → Bool
  | [] => part.isEmpty
  | c :: cs => part.isPrefixOf (c :: cs) || contains part cs

theorem splitOn_ne_nil (sep : Char) (s : List Char) : splitOn sep s ≠ [] := by
  cases s with
  | nil => simp [splitOn]
  | cons c cs =>
    unfold splitOn
    split
    · simp
    · split <;> simp

theorem splitOn_eq (sep : Char) (s : List Char) : splitOn sep s = s.splitOn sep := by
  induction s with
  | nil => rfl
  | cons c cs ih =>
    rw [splitOn, List.splitOn_cons_eq_if_modifyHead, ih]
    by_cases hc : c = sep
    · simp [hc]
    · rw [if_neg hc, if_neg (by simpa using hc)]
      cases h : cs.splitOn sep with
      | nil => exact absurd h (List.splitOn_ne_nil sep cs)
      | cons piece pieces => rfl

theorem not_mem_of_mem_splitOn {sep : Char} {s piece : List Char} (h : piece ∈ splitOn sep s) :
    sep ∉ piece := by
  induction s generalizing piece with
  | nil => simp_all [splitOn]
  | cons c cs ih =>
    rw [splitOn] at h
    split at h
    · rcases List.mem_cons.mp h with rfl | h
      · simp
      · exact ih h
    · rename_i hc
      cases hcs : splitOn sep cs with
      | nil => exact absurd hcs (splitOn_ne_nil sep cs)
      | cons first more =>
        simp only [hcs, List.mem_cons] at h ih
        rcases h with rfl | h
        · have hf := ih (Or.inl rfl)
          simpa [hf] using fun e => hc e.symm
        · exact ih (Or.inr h)

end NetworkCa.Text
