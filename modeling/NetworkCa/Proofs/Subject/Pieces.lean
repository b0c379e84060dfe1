import NetworkCa.Proofs.Subject.RoundTrip
import NetworkCa.Proofs.Text.Blank

namespace NetworkCa

namespace Subject

open components (onHead)

variable {text value : List Char} {pieces : List (List Char)}
variable {found : List (Option (Attribute × String))}

theorem flatten_components_sublist (text : List Char) :
    (components text).flatten.Sublist text := by
  fun_induction components text with
  | case1 => exact List.Sublist.refl _
  | case2 => exact List.Sublist.refl _
  | case3 c rest ih =>
    rw [flatten_onHead]
    exact (ih.cons_cons c).cons '\\'
  | case4 rest ih => exact ih.cons '/'
  | case5 c rest single pair inner ih =>
    rw [flatten_onHead]
    exact ih.cons_cons c

theorem plain_of_flatten_components (h : (components text).flatten = text) :
    '/' ∉ text ∧ '\\' ∉ text.dropLast := by
  fun_induction components text with
  | case1 => simp
  | case2 => simp
  | case3 c rest ih =>
    have short := (flatten_components_sublist rest).length_le
    have long := congrArg List.length h
    rw [flatten_onHead, List.length_cons, List.length_cons, List.length_cons] at long
    omega
  | case4 rest ih =>
    have short := (flatten_components_sublist rest).length_le
    have long := congrArg List.length h
    rw [List.flatten_cons, List.nil_append, List.length_cons] at long
    omega
  | case5 c rest single pair inner ih =>
    have other : c ≠ '\\' := ne_backslash single pair
    have apart : c ≠ '/' := inner
    rw [flatten_onHead, List.cons.injEq] at h
    obtain ⟨unsplit, unescaped⟩ := ih h.2
    refine ⟨by simp [unsplit, apart.symm], ?_⟩
    cases rest with
    | nil => simp
    | cons d rest => simpa [other.symm] using unescaped

theorem components_of_plain (unsplit : '/' ∉ text) (unescaped : '\\' ∉ text.dropLast) :
    components text = [text] := by
  obtain rfl | ⟨front, c, rfl⟩ := List.eq_nil_or_concat text
  · rfl
  · rw [List.concat_eq_append] at unsplit unescaped ⊢
    rw [List.dropLast_concat] at unescaped
    rw [List.mem_append, List.mem_singleton, not_or] at unsplit
    exact components_spelled (spells_self unsplit.1 unescaped) (components_singleton (Ne.symm unsplit.2))

theorem count_components (text : List Char) :
    (components text).flatten.count '\x7b' = text.count '\x7b' := by
  fun_induction components text with
  | case1 => rfl
  | case2 => rfl
  | case3 c rest ih =>
    rw [flatten_onHead, List.count_cons, ih, List.count_cons_of_ne (by decide), List.count_cons]
  | case4 rest ih => rw [List.flatten_cons, List.nil_append, ih, List.count_cons_of_ne (by decide)]
  | case5 c rest single pair inner ih => rw [flatten_onHead, List.count_cons, ih, List.count_cons]

theorem component_split {before : List Char} {a : Attribute} (apart : '=' ∉ before)
    (known : Text.trim before = a.shortName.toList) :
    component (before ++ '=' :: value) =
      .ok (if value = [] then none else some (a, String.ofList value)) := by
  have there : (before ++ '=' :: value).isEmpty = false := by simp
  rw [component, there, if_neg (by simp), Text.splitOnce_append apart]
  simp only [known, String.ofList_toList, Attribute.ofShortName?_shortName, List.isEmpty_iff]

theorem component_cases {piece : List Char} {x : Option (Attribute × String)}
    (h : component piece = .ok x) :
    piece = [] ∧ x = none ∨ ∃ before a value, '=' ∉ before ∧ piece = before ++ '=' :: value ∧
      Text.trim before = a.shortName.toList ∧
        x = if value = [] then none else some (a, String.ofList value) := by
  unfold component at h
  split at h
  · next empty =>
    cases h
    exact .inl ⟨List.isEmpty_iff.1 empty, rfl⟩
  split at h
  · cases h
  next before value cut =>
  dsimp only at h
  split at h
  · cases h
  next a known =>
  cases h
  have named : a.shortName = String.ofList (Text.trim before) := by
    simpa using List.find?_some known
  have key : Text.trim before = a.shortName.toList := by rw [named, String.toList_ofList]
  refine .inr ⟨before, a, value, Text.not_mem_of_splitOnce cut, Text.eq_append_of_splitOnce cut,
    key, ?_⟩
  simp only [List.isEmpty_iff]

theorem mapM_append_eq_ok {init pieces : List (List Char)} :
    (init ++ pieces).mapM component = .ok found ↔ ∃ before behind,
      init.mapM component = .ok before ∧ pieces.mapM component = .ok behind ∧
        found = before ++ behind := by
  rw [List.mapM_append]
  constructor
  · intro h
    rcases front : init.mapM component with e | before <;> rw [front] at h
    · cases h
    rcases back : pieces.mapM component with e | behind <;> rw [back] at h
    · cases h
    · cases h
      exact ⟨before, behind, rfl, rfl, rfl⟩
  · rintro ⟨before, behind, front, back, rfl⟩
    rw [front, back]
    rfl

theorem values_sublist (h : pieces.mapM component = .ok found) :
    (values (found.filterMap id)).Sublist pieces.flatten := by
  induction pieces generalizing found with
  | nil =>
    cases h
    exact List.Sublist.refl _
  | cons piece pieces ih =>
    obtain ⟨one, rest, read, onward, rfl⟩ := mapM_eq_ok_cons h
    rw [List.flatten_cons]
    cases one with
    | none =>
      rw [List.filterMap_cons_none rfl]
      exact (ih onward).trans (List.sublist_append_right _ _)
    | some a =>
      obtain ⟨_, before, rfl⟩ := component_eq_some read
      have kept : (some a :: rest).filterMap id = a :: rest.filterMap id := rfl
      rw [kept, values_cons]
      have value : a.2.toList.Sublist (before ++ '=' :: a.2.toList) :=
        (List.sublist_cons_self _ _).trans (List.sublist_append_right _ _)
      exact value.append (ih onward)

theorem count_values {pieces : List (List Char)} {found : List (Option (Attribute × String))}
    (h : pieces.mapM component = .ok found) :
    (values (found.filterMap id)).count '\x7b' = pieces.flatten.count '\x7b' := by
  induction pieces generalizing found with
  | nil =>
    cases h
    rfl
  | cons piece pieces ih =>
    obtain ⟨one, rest, read, onward, rfl⟩ := mapM_eq_ok_cons h
    have later := ih onward
    have keys (a : Attribute) : a.shortName.toList.count '\x7b' = 0 := by cases a <;> decide
    rw [List.flatten_cons, List.count_append, ← later]
    obtain ⟨rfl, rfl⟩ | ⟨before, a, value, _, rfl, known, rfl⟩ := component_cases read
    · rw [List.filterMap_cons_none rfl, List.count_nil, Nat.zero_add]
    have key : before.count '\x7b' = 0 := by
      rw [← Text.count_trim (by decide), known, keys]
    by_cases empty : value = []
    · rw [if_pos empty, List.filterMap_cons_none rfl, empty, List.count_append, key]
      simp
    · have kept : (some (a, String.ofList value) :: rest).filterMap id =
          (a, String.ofList value) :: rest.filterMap id := rfl
      rw [if_neg empty, kept, values_cons, String.toList_ofList, List.count_append,
        List.count_append, key, List.count_cons_of_ne (by decide), Nat.zero_add]

theorem count_of_parse {text : String} {s : Subject} (h : parse text = .ok s) :
    (values s.attributes).count '\x7b' = text.toList.count '\x7b' := by
  obtain ⟨body, found, chars, pieces, attributes, _⟩ := parse_eq_ok.1 h
  rw [attributes, count_values pieces, count_components, chars, List.count_cons_of_ne (by decide)]

end Subject

end NetworkCa
