import Mathlib.Data.List.DropRight
import NetworkCa.Proofs.Extensions.Entries
import NetworkCa.Proofs.Text.Blank

namespace NetworkCa.LeafExtensions

open Text (before trim trimStart trimEnd isBlank splitOnce_append)

def Blank (s : List Char) : Prop := ∀ c ∈ s, isBlank c = true

inductive Padded (s : List Char) : List Char → Prop
  | mk {leading trailing : List Char} : Blank leading → Blank trailing →
    Padded s (leading ++ s ++ trailing)

namespace Padded

variable {s raw : List Char} {c : Char}

theorem refl (s : List Char) : Padded s s := by
  simpa using Padded.mk (s := s) (List.forall_mem_nil _) (List.forall_mem_nil _)

theorem notMem (padded : Padded s raw) (solid : isBlank c = false) (absent : c ∉ s) : c ∉ raw := by
  obtain ⟨leading, trailing⟩ := padded
  intro member
  simp only [List.mem_append, absent, or_false] at member
  rcases member with front | back
  · simp [leading c front] at solid
  · simp [trailing c back] at solid

theorem trim (padded : Padded s raw) (trimmed : trim s = s) : trim raw = s := by
  obtain ⟨leading, trailing⟩ := padded
  exact Text.trim_between trimmed leading trailing

theorem trim_trimStart (padded : Padded s raw) (trimmed : Text.trim s = s) :
    Text.trim (trimStart raw) = s := by
  have twice : trimStart (trimStart raw) = trimStart raw := List.dropWhile_idempotent _ _
  rw [Text.trim, twice, ← Text.trim, padded.trim trimmed]

theorem trimStart_nil (padded : Padded [] raw) : trimStart raw = [] := by
  obtain ⟨leading, trailing⟩ := padded
  have none := Text.trimStart_append trailing []
  rw [List.append_nil] at none
  rw [List.append_nil, Text.trimStart_append leading, none]
  rfl

theorem head?_trimStart (padded : Padded (c :: s) raw) (trimmed : Text.trim (c :: s) = c :: s) :
    (trimStart raw).head? = some c := by
  obtain ⟨leading, trailing⟩ := padded
  rw [List.append_assoc, Text.trimStart_append leading, List.cons_append,
    Text.trimStart_eq_self (Text.solid_of_trim trimmed), List.head?_cons]

theorem trim_trimEnd (padded : Padded s raw) (trimmed : Text.trim s = s) :
    Text.trim (trimEnd raw) = s := by
  obtain ⟨leading, trailing⟩ := padded
  rw [Text.trimEnd_append trailing]
  cases s with
  | nil =>
    have none := Text.trimEnd_append leading []
    rw [List.nil_append] at none
    rw [List.append_nil, none]
    rfl
  | cons c rest =>
    have kept := Text.trimEnd_append_cons (Text.solid_of_trim trimmed) [] rest
    rw [List.nil_append, Text.trimEnd_of_trim trimmed, List.nil_append] at kept
    rw [Text.trimEnd_append_cons (Text.solid_of_trim trimmed), ← kept]
    have left := Text.trim_between trimmed leading (List.forall_mem_nil _)
    rwa [List.append_nil] at left

end Padded

inductive Writes : Line → List Char → Prop
  | blank {raw : List Char} : Blank raw → Writes .blank raw
  | header {name inner raw : List Char} :
    '#' ∉ name → trim name = name → Padded name inner → Padded ('[' :: inner ++ [']']) raw →
    Writes (.header name) raw
  | setting {key value left right : List Char} :
    '#' ∉ key → '=' ∉ key → key.head? ≠ some '[' → trim key = key →
    '#' ∉ value → trim value = value → Padded key left → Padded value right →
    Writes (.setting key value) (left ++ '=' :: right)
  | comment {line : Line} {raw words : List Char} :
    Writes line raw → Writes line (raw ++ '#' :: words)

section

variable {name raw key value left right : List Char} {line : Line}

theorem read_comment (raw words : List Char) : Line.read (raw ++ '#' :: words) = Line.read raw := by
  rw [Line.read, Line.read, Text.before_append_cons]

theorem read_blank (blank : Blank raw) : Line.read raw = .blank := by
  have plain : '#' ∉ raw := fun member => by cases blank '#' member
  have none : trim raw = [] := by
    have none := Text.trim_between Text.trim_nil blank (List.forall_mem_nil _)
    rwa [List.append_nil, List.append_nil] at none
  rw [Line.read, Text.before_of_notMem plain, none]
  rfl

theorem read_header {inner : List Char} (plain : '#' ∉ name) (trimmed : trim name = name)
    (padded : Padded name inner) (line : Padded ('[' :: inner ++ [']']) raw) :
    Line.read raw = .header name := by
  have plainInner : '#' ∉ '[' :: inner ++ [']'] := by
    simpa using padded.notMem rfl plain
  have closed : trim ('[' :: inner ++ [']']) = '[' :: inner ++ [']'] := by
    have front := Text.trim_append_cons (c := '[') rfl [] (inner ++ [']'])
    rw [Text.trimEnd_append_cons (c := ']') rfl] at front
    exact front
  have found : headerName? ('[' :: inner ++ [']']) = some name :=
    headerName?_eq_some.2 ⟨inner, rfl, (padded.trim trimmed).symm⟩
  rw [Line.read, Text.before_of_notMem (line.notMem rfl plainInner), line.trim closed,
    if_neg (by simp), found]

theorem read_setting (plainKey : '#' ∉ key) (uncut : '=' ∉ key) (unopened : key.head? ≠ some '[')
    (trimmedKey : trim key = key) (plain : '#' ∉ value) (trimmed : trim value = value)
    (paddedKey : Padded key left) (padded : Padded value right) :
    Line.read (left ++ '=' :: right) = .setting key value := by
  have plainLine : '#' ∉ left ++ '=' :: right := by
    simp [paddedKey.notMem rfl plainKey, padded.notMem rfl plain]
  have headerless : headerName? (trimStart left ++ '=' :: trimEnd right) = none := by
    rw [headerName?_eq_none]
    intro inner same
    have front := congrArg List.head? same
    cases key with
    | nil =>
      rw [paddedKey.trimStart_nil] at front
      cases front
    | cons c rest =>
      rw [List.head?_append, paddedKey.head?_trimStart trimmedKey] at front
      exact unopened front
  have cut : Text.splitOnce '=' (trimStart left ++ '=' :: trimEnd right) =
      some (trimStart left, trimEnd right) := by
    apply splitOnce_append
    intro member
    exact paddedKey.notMem rfl uncut ((List.dropWhile_suffix _).subset member)
  rw [Line.read, Text.before_of_notMem plainLine, Text.trim_append_cons rfl, if_neg (by simp),
    headerless]
  dsimp only
  rw [cut]
  dsimp only
  rw [paddedKey.trim_trimStart trimmedKey, padded.trim_trimEnd trimmed]

theorem Writes.read (writes : Writes line raw) : Line.read raw = line := by
  induction writes with
  | blank blank => exact read_blank blank
  | header plain trimmed padded line => exact read_header plain trimmed padded line
  | setting plainKey uncut unopened trimmedKey plain trimmed paddedKey padded =>
    exact read_setting plainKey uncut unopened trimmedKey plain trimmed paddedKey padded
  | comment _ ih => rw [read_comment, ih]

end

end NetworkCa.LeafExtensions
