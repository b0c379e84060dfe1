import NetworkCa.Text.Blank

namespace NetworkCa.Text

variable {before after s : List Char}

theorem trimStart_append (blank : ∀ c ∈ before, isBlank c = true) (s : List Char) :
    trimStart (before ++ s) = trimStart s := List.dropWhile_append_of_pos blank

theorem trimEnd_append (blank : ∀ c ∈ after, isBlank c = true) (s : List Char) :
    trimEnd (s ++ after) = trimEnd s := by
  have turned : ∀ c ∈ after.reverse, isBlank c = true := fun c hc => blank c (List.mem_reverse.1 hc)
  rw [trimEnd, List.reverse_append, List.dropWhile_append_of_pos turned, ← trimEnd]

theorem trimEnd_of_solid (solid : ∀ c ∈ s, isBlank c = false) : trimEnd s = s := by
  have kept : s.reverse.dropWhile isBlank = s.reverse := by
    cases reversed : s.reverse with
    | nil => rfl
    | cons c rest =>
      have member : c ∈ s := List.mem_reverse.1 (reversed ▸ List.mem_cons_self)
      rw [List.dropWhile_cons_of_neg (by simp [solid c member])]
  rw [trimEnd, kept, List.reverse_reverse]

theorem trimEnd_append_cons {c : Char} (solid : isBlank c = false) (s rest : List Char) :
    trimEnd (s ++ c :: rest) = s ++ c :: trimEnd rest := by
  rw [trimEnd, List.reverse_append, List.reverse_cons, List.append_assoc, List.singleton_append,
    List.dropWhile_append, List.dropWhile_cons_of_neg (by simp [solid])]
  split
  · next blank => simp [trimEnd, List.isEmpty_iff.1 blank]
  · simp [trimEnd]

theorem trimStart_append_cons {c : Char} (solid : isBlank c = false) (s rest : List Char) :
    trimStart (s ++ c :: rest) = trimStart s ++ c :: rest := by
  rw [trimStart, List.dropWhile_append, List.dropWhile_cons_of_neg (by simp [solid])]
  split
  · next blank => rw [trimStart, List.isEmpty_iff.1 blank, List.nil_append]
  · rfl

theorem trim_append_cons {c : Char} (solid : isBlank c = false) (s rest : List Char) :
    trim (s ++ c :: rest) = trimStart s ++ c :: trimEnd rest := by
  rw [trim, trimStart_append_cons solid, trimEnd_append_cons solid]

theorem trimStart_of_trim (trimmed : trim s = s) : trimStart s = s := by
  have front : trimEnd (trimStart s) <+: trimStart s := by
    rw [trimEnd, ← List.reverse_suffix, List.reverse_reverse]
    exact List.dropWhile_suffix _
  have back : trimStart s <:+ s := List.dropWhile_suffix _
  rw [← trim, trimmed] at front
  exact back.eq_of_length (Nat.le_antisymm back.length_le front.length_le)

theorem solid_of_trim {c : Char} (trimmed : trim (c :: s) = c :: s) : isBlank c = false := by
  cases blank : isBlank c with
  | false => rfl
  | true =>
    have shorter : trimStart (c :: s) = trimStart s := List.dropWhile_cons_of_pos blank
    have short : (trimStart s).length ≤ s.length := (List.dropWhile_suffix _).length_le
    rw [← shorter, trimStart_of_trim trimmed, List.length_cons] at short
    omega

theorem trimEnd_of_trim (trimmed : trim s = s) : trimEnd s = s := by
  rw [trim, trimStart_of_trim trimmed] at trimmed
  exact trimmed

theorem trim_of_solid (solid : ∀ c ∈ s, isBlank c = false) : trim s = s := by
  cases s with
  | nil => rfl
  | cons c rest => rw [trim, trimStart_eq_self (solid c List.mem_cons_self), trimEnd_of_solid solid]

theorem trim_between (trimmed : trim s = s) (leading : ∀ c ∈ before, isBlank c = true)
    (trailing : ∀ c ∈ after, isBlank c = true) : trim (before ++ s ++ after) = s := by
  rw [trim, List.append_assoc, trimStart_append leading]
  cases s with
  | nil =>
    have none := trimStart_append trailing []
    rw [List.append_nil] at none
    rw [List.nil_append, none]
    rfl
  | cons c rest =>
    rw [List.cons_append, trimStart_eq_self (solid_of_trim trimmed), ← List.cons_append,
      trimEnd_append trailing, trimEnd_of_trim trimmed]

theorem trim_padded (solid : ∀ c ∈ s, isBlank c = false)
    (leading : ∀ c ∈ before, isBlank c = true) (trailing : ∀ c ∈ after, isBlank c = true) :
    trim (before ++ s ++ after) = s :=
  trim_between (trim_of_solid solid) leading trailing

theorem count_trimStart {c : Char} (solid : isBlank c = false) (s : List Char) :
    (trimStart s).count c = s.count c := by
  induction s with
  | nil => rfl
  | cons d ds ih =>
    by_cases blank : isBlank d = true
    · have other : d ≠ c := fun same => by simp [same, solid] at blank
      rw [trimStart, List.dropWhile_cons_of_pos blank, ← trimStart, ih, List.count_cons_of_ne other]
    · rw [trimStart, List.dropWhile_cons_of_neg blank]

theorem count_trim {c : Char} (solid : isBlank c = false) (s : List Char) :
    (trim s).count c = s.count c := by
  have behind := count_trimStart solid (trimStart s).reverse
  rw [trim, trimEnd, List.count_reverse, ← trimStart, behind, List.count_reverse,
    count_trimStart solid]

end NetworkCa.Text
