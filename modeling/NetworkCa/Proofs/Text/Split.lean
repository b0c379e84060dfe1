import NetworkCa.Text.Split

namespace NetworkCa.Text

variable {sep : Char} {s before after rest front : List Char}

theorem eq_append_of_splitOnce (h : splitOnce sep s = some (before, after)) :
    s = before ++ sep :: after := by
  induction s generalizing before with
  | nil => cases h
  | cons c cs ih =>
    rw [splitOnce] at h
    by_cases same : c = sep
    · rw [if_pos same] at h
      cases h
      rw [same, List.nil_append]
    · rw [if_neg same] at h
      obtain ⟨⟨front, back⟩, cut, joined⟩ := Option.map_eq_some_iff.1 h
      cases joined
      rw [ih cut, List.cons_append]

theorem splitOnce_append (apart : sep ∉ before) (after : List Char) :
    splitOnce sep (before ++ sep :: after) = some (before, after) := by
  induction before with
  | nil => rw [List.nil_append, splitOnce, if_pos rfl]
  | cons c cs ih =>
    have other : c ≠ sep := fun same => apart (by simp [same])
    have rest := ih fun member => apart (List.mem_cons_of_mem c member)
    rw [List.cons_append, splitOnce, if_neg other, rest]
    rfl

theorem not_mem_of_splitOnce (h : splitOnce sep s = some (before, after)) : sep ∉ before := by
  induction s generalizing before with
  | nil => cases h
  | cons c cs ih =>
    rw [splitOnce] at h
    by_cases same : c = sep
    · rw [if_pos same] at h
      cases h
      exact List.not_mem_nil
    · rw [if_neg same] at h
      obtain ⟨⟨front, back⟩, cut, joined⟩ := Option.map_eq_some_iff.1 h
      cases joined
      simp [Ne.symm same, ih cut]

theorem splitOnce_eq_some :
    splitOnce sep s = some (before, after) ↔ s = before ++ sep :: after ∧ sep ∉ before := by
  constructor
  · intro h
    exact ⟨eq_append_of_splitOnce h, not_mem_of_splitOnce h⟩
  · rintro ⟨rfl, apart⟩
    exact splitOnce_append apart after

theorem splitOnce_eq_none : splitOnce sep s = none ↔ sep ∉ s := by
  constructor
  · intro h member
    obtain ⟨before, after, rfl, apart⟩ := List.eq_append_cons_of_mem member
    rw [splitOnce_append apart] at h
    cases h
  · intro apart
    rcases cut : splitOnce sep s with _ | ⟨before, after⟩
    · rfl
    · rw [eq_append_of_splitOnce cut] at apart
      exact absurd (by simp) apart

theorem before_of_notMem (absent : sep ∉ s) : Text.before sep s = s := by
  induction s with
  | nil => rfl
  | cons c cs ih =>
    rw [List.mem_cons, not_or] at absent
    obtain ⟨other, later⟩ := absent
    rw [Text.before, List.takeWhile_cons_of_pos (by simpa using Ne.symm other), ← Text.before,
      ih later]

theorem before_append_cons (sep : Char) (s rest : List Char) :
    Text.before sep (s ++ sep :: rest) = Text.before sep s := by
  induction s with
  | nil => simp [Text.before]
  | cons c cs ih =>
    simp only [Text.before] at ih
    simp only [Text.before, List.cons_append, List.takeWhile_cons, ih]

theorem dropPrefix?_eq_some {start : List Char} :
    dropPrefix? start s = some rest ↔ s = start ++ rest := by
  rw [dropPrefix?, Option.ite_none_right_eq_some, List.isPrefixOf_iff_prefix, Option.some.injEq]
  constructor
  · rintro ⟨⟨more, rfl⟩, same⟩
    rw [List.drop_left] at same
    rw [same]
  · rintro rfl
    exact ⟨List.prefix_append _ _, List.drop_left⟩

theorem dropSuffix?_eq_some {suffix : List Char} :
    dropSuffix? suffix s = some front ↔ s = front ++ suffix := by
  rw [dropSuffix?, Option.ite_none_right_eq_some, List.isSuffixOf_iff_suffix, Option.some.injEq]
  have whole (front : List Char) :
      (front ++ suffix).take ((front ++ suffix).length - suffix.length) = front := by simp
  constructor
  · rintro ⟨⟨front', rfl⟩, same⟩
    rw [whole] at same
    rw [same]
  · rintro rfl
    exact ⟨List.suffix_append _ _, whole front⟩

theorem mem_of_mem_splitOn {piece : List Char} {c : Char} (h : piece ∈ splitOn sep s)
    (hc : c ∈ piece) : c ∈ s := by
  induction s generalizing piece with
  | nil => simp_all [splitOn]
  | cons d cs ih =>
    rw [splitOn] at h
    split at h
    · rcases List.mem_cons.1 h with rfl | h
      · cases hc
      · exact List.mem_cons_of_mem d (ih h hc)
    · rcases pieces : splitOn sep cs with _ | ⟨first, more⟩
      · exact absurd pieces (splitOn_ne_nil sep cs)
      · rw [pieces] at h ih
        rcases List.mem_cons.1 h with rfl | later
        · rcases List.mem_cons.1 hc with rfl | hc
          · exact List.mem_cons_self
          · exact List.mem_cons_of_mem d (ih List.mem_cons_self hc)
        · exact List.mem_cons_of_mem d (ih (List.mem_cons_of_mem _ later) hc)

end NetworkCa.Text
