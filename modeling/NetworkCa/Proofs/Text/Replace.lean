import NetworkCa.Text.Split

namespace NetworkCa.Text

variable {c sep : Char} {old new : List Char}

theorem isPrefixOf_append_sep (apart : sep ∉ old) (s t : List Char) :
    old.isPrefixOf (s ++ sep :: t) = old.isPrefixOf s := by
  induction old generalizing s with
  | nil => simp
  | cons o os ih =>
    have other : o ≠ sep := fun same => apart (by simp [same])
    have later := ih fun member => apart (List.mem_cons_of_mem o member)
    cases s with
    | nil => simp [List.isPrefixOf, other]
    | cons d ds => simp only [List.cons_append, List.isPrefixOf, later]

theorem replace_append_sep (apart : sep ∉ old) (s t : List Char) :
    replace old new (s ++ sep :: t) = replace old new s ++ sep :: replace old new t := by
  fun_induction replace old new s with
  | case1 =>
    have none : ¬(old ≠ [] ∧ old.isPrefixOf (sep :: t) = true) := by
      rintro ⟨some, starts⟩
      have short := isPrefixOf_append_sep apart [] t
      rw [List.nil_append, starts] at short
      exact some (by simpa using short.symm)
    rw [List.nil_append, replace, dif_neg none, List.nil_append]
  | case2 d ds found ih =>
    have starts := (isPrefixOf_append_sep apart (d :: ds) t).trans found.2
    have long : old.length ≤ (d :: ds).length := (List.isPrefixOf_iff_prefix.1 found.2).length_le
    rw [List.cons_append] at starts ⊢
    rw [replace, dif_pos ⟨found.1, starts⟩, ← List.cons_append, List.drop_append_of_le_length long,
      ih, List.append_assoc]
  | case3 d ds absent ih =>
    have none : ¬(old ≠ [] ∧ old.isPrefixOf (d :: (ds ++ sep :: t)) = true) := by
      rwa [← List.cons_append, isPrefixOf_append_sep apart]
    rw [List.cons_append, replace, dif_neg none, ih, List.cons_append]

theorem replace_of_not_contains {s : List Char} (absent : contains old s = false) :
    replace old new s = s := by
  fun_induction replace old new s with
  | case1 => rfl
  | case2 d ds found ih => simp [contains, found.2] at absent
  | case3 d ds _ ih =>
    rw [contains, Bool.or_eq_false_iff] at absent
    rw [ih absent.2]

theorem replace_self (some : old ≠ []) : replace old new old = new := by
  obtain ⟨c, rest, rfl⟩ := List.exists_cons_of_ne_nil some
  have starts : (c :: rest).isPrefixOf (c :: rest) = true :=
    List.isPrefixOf_iff_prefix.2 (List.prefix_refl _)
  rw [replace, dif_pos ⟨some, starts⟩, List.drop_length, replace, List.append_nil]

theorem count_replace_le (free : c ∉ new) (s : List Char) :
    (replace old new s).count c ≤ s.count c := by
  fun_induction replace old new s with
  | case1 => exact Nat.le_refl _
  | case2 d ds _ ih =>
    have fewer := (List.drop_sublist old.length (d :: ds)).count_le c
    rw [List.count_append, List.count_eq_zero.2 free]
    omega
  | case3 d ds _ ih =>
    rw [List.count_cons, List.count_cons]
    omega

theorem count_replace_lt (free : c ∉ new) (marked : c ∈ old) {s : List Char}
    (there : contains old s = true) : (replace old new s).count c < s.count c := by
  fun_induction replace old new s with
  | case1 =>
    rw [contains, List.isEmpty_iff] at there
    exact absurd marked (by simp [there])
  | case2 d ds found _ =>
    have whole : (d :: ds) = old ++ (d :: ds).drop old.length :=
      (List.prefix_iff_eq_append.1 (List.isPrefixOf_iff_prefix.1 found.2)).symm
    have split := congrArg (List.count c) whole
    have further : (replace old new ((d :: ds).drop old.length)).count c ≤ _ :=
      count_replace_le free _
    have one : 0 < old.count c := List.count_pos_iff.2 marked
    rw [List.count_append] at split
    rw [List.count_append, List.count_eq_zero.2 free]
    omega
  | case3 d ds absent ih =>
    have some : old ≠ [] := List.ne_nil_of_mem marked
    have later : contains old ds = true := by
      rw [contains, Bool.or_eq_true] at there
      exact there.resolve_left fun starts => absent ⟨some, starts⟩
    have fewer := ih later
    rw [List.count_cons, List.count_cons]
    omega

end NetworkCa.Text
