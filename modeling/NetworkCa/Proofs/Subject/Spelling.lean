import NetworkCa.Subject.Basic

namespace NetworkCa.Subject

open components (onHead)

variable {text rest piece first : List Char} {pieces more : List (List Char)}

theorem components_escape (c : Char) (rest : List Char) :
    components ('\\' :: c :: rest) = onHead c (components rest) := by rw [components]

theorem components_plain {c : Char} (other : c ≠ '\\') (inner : c ≠ '/') (rest : List Char) :
    components (c :: rest) = onHead c (components rest) := by
  rw [components]
  · intro same
    exact absurd same other
  · intro next tail same
    exact absurd same other
  · exact inner

theorem components_slash (rest : List Char) : components ('/' :: rest) = [] :: components rest := by
  rw [components]

theorem components_singleton {c : Char} (inner : c ≠ '/') : components [c] = [[c]] := by
  by_cases backslash : c = '\\'
  · subst backslash
    rfl
  · rw [components_plain backslash inner]
    rfl

theorem components_ne_nil (text : List Char) : components text ≠ [] := by
  have onHead_ne_nil (c : Char) (pieces : List (List Char)) : onHead c pieces ≠ [] := by
    cases pieces <;> exact List.cons_ne_nil _ _
  fun_cases components text
  · exact List.cons_ne_nil _ _
  · exact List.cons_ne_nil _ _
  · exact onHead_ne_nil _ _
  · exact List.cons_ne_nil _ _
  · exact onHead_ne_nil _ _

theorem ne_backslash {c : Char} {rest : List Char} (single : c = '\\' → rest = [] → False)
    (pair : ∀ d more, c = '\\' → rest = d :: more → False) : c ≠ '\\' := by
  intro same
  cases rest with
  | nil => exact single same rfl
  | cons d more => exact pair d more same rfl

/-- The ways to write a piece: a backslash may stand before every character, and has to stand before
    a slash and a backslash. -/
inductive Spells : List Char → List Char → Prop
  | nil : Spells [] []
  | plain {c : Char} {text piece : List Char} (inner : c ≠ '/') (other : c ≠ '\\') :
      Spells text piece → Spells (c :: text) (c :: piece)
  | escaped {text piece : List Char} (c : Char) :
      Spells text piece → Spells ('\\' :: c :: text) (c :: piece)

/-- A text between its slashes, those with a backslash before them apart. A backslash at the very end
    stands for itself. -/
inductive Cut : List Char → List (List Char) → Prop
  | last {text piece : List Char} : Spells text piece → Cut text [piece]
  | backslash {text piece : List Char} :
      Spells text piece → Cut (text ++ ['\\']) [piece ++ ['\\']]
  | slash {text piece rest : List Char} {more : List (List Char)} :
      Spells text piece → Cut rest more → Cut (text ++ '/' :: rest) (piece :: more)

theorem Spells.append {text' piece' : List Char} (front : Spells text piece)
    (back : Spells text' piece') : Spells (text ++ text') (piece ++ piece') := by
  induction front with
  | nil => exact back
  | plain inner other _ ih => exact .plain inner other ih
  | escaped c _ ih => exact .escaped c ih

theorem spells_self (inner : '/' ∉ text) (other : '\\' ∉ text) : Spells text text := by
  induction text with
  | nil => exact .nil
  | cons c rest ih =>
    rw [List.mem_cons, not_or] at inner other
    exact .plain (Ne.symm inner.1) (Ne.symm other.1) (ih inner.2 other.2)

theorem components_spelled (spelled : Spells text piece) (next : components rest = first :: more) :
    components (text ++ rest) = (piece ++ first) :: more := by
  induction spelled with
  | nil => exact next
  | plain inner other _ ih =>
    rw [List.cons_append, components_plain other inner, ih]
    rfl
  | escaped c _ ih =>
    rw [List.cons_append, List.cons_append, components_escape, ih]
    rfl

theorem components_of_cut (cut : Cut text pieces) : components text = pieces := by
  induction cut with
  | last spelled => simpa using components_spelled spelled (rfl : components [] = [[]])
  | backslash spelled => exact components_spelled spelled rfl
  | @slash text piece rest more spelled _ ih =>
    have apart := components_spelled spelled (components_slash rest)
    rw [apart, ih, List.append_nil]

theorem Cut.spelled (spelled : Spells text piece) (cut : Cut rest (first :: more)) :
    Cut (text ++ rest) ((piece ++ first) :: more) := by
  cases cut with
  | last tail => exact .last (spelled.append tail)
  | backslash tail =>
    rw [← List.append_assoc, ← List.append_assoc]
    exact .backslash (spelled.append tail)
  | slash tail further =>
    rw [← List.append_assoc]
    exact .slash (spelled.append tail) further

theorem cut_components (text : List Char) : Cut text (components text) := by
  have onward {c : Char} {text rest : List Char} (spelled : Spells text [c])
      (cut : Cut rest (components rest)) :
      Cut (text ++ rest) (onHead c (components rest)) := by
    obtain ⟨first, more, split⟩ := List.exists_cons_of_ne_nil (components_ne_nil rest)
    rw [split] at cut ⊢
    exact Cut.spelled spelled cut
  fun_induction components text with
  | case1 => exact .last .nil
  | case2 => exact .backslash .nil
  | case3 c rest ih => exact onward (.escaped c .nil) ih
  | case4 rest ih => exact .slash .nil ih
  | case5 c rest single pair inner ih =>
    exact onward (.plain inner (ne_backslash single pair) .nil) ih

/-- The pieces that are read are those that the text is cut into. -/
theorem cut_iff : Cut text pieces ↔ components text = pieces :=
  ⟨components_of_cut, fun same => same ▸ cut_components text⟩

end NetworkCa.Subject
