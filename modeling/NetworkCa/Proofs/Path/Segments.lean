import NetworkCa.Path.Relative

namespace NetworkCa

structure PlainName (s : String) : Prop where
  ne_empty : s ≠ ""
  ne_current : s ≠ "."
  ne_parent : s ≠ ".."
  no_slash : '/' ∉ s.toList

namespace Path

theorem segments_append_slash (p q : String) :
    (ofString (p ++ "/" ++ q)).segments = (ofString p).segments ++ (ofString q).segments := by
  have cut := List.splitOn_append_cons_self (a := '/') p.toList q.toList
  simp only [segments, ofString, Text.splitOn_eq, String.toList_append, ← List.map_append, ← cut]
  simp

theorem segments_of_no_slash {s : String} (h : '/' ∉ s.toList) : (ofString s).segments = [s] := by
  simp [segments, ofString, Text.splitOn_eq, List.splitOn_eq_singleton h]

theorem segments_intercalate {parts : List String} (hne : parts ≠ [])
    (h : ∀ s ∈ parts, '/' ∉ s.toList) : (ofString ("/".intercalate parts)).segments = parts := by
  have cut : (['/'].intercalate (parts.map String.toList)).splitOn '/' = parts.map String.toList :=
    List.splitOn_intercalate '/' (by simpa using h) (by simpa using hne)
  have slash : "/".toList = ['/'] := by decide
  rw [segments, Text.splitOn_eq, ofString, String.toList_intercalate, slash, cut]
  simp

theorem no_slash_of_mem_segments {p : Path} {s : String} (h : s ∈ p.segments) :
    '/' ∉ s.toList := by
  obtain ⟨piece, member, rfl⟩ := List.mem_map.mp h
  simpa using Text.not_mem_of_mem_splitOn member

theorem plainName_of_mem_components {p : Path} {s : String} (h : .name s ∈ p.components) :
    PlainName s := by
  have inner : .name s ∈ p.steps.map Component.ofStep := by
    simp only [components] at h
    split at h
    · simpa using h
    · split at h <;> simpa using h
  obtain ⟨step, member, same⟩ := List.mem_map.mp inner
  obtain ⟨member, nonempty⟩ := List.mem_filter.mp member
  unfold Component.ofStep at same
  split at same
  · cases same
  · split at same
    · cases same
    · cases same
      exact ⟨by simpa using nonempty, ‹_›, ‹_›, no_slash_of_mem_segments member⟩

theorem steps_append_slash (p q : String) :
    (ofString (p ++ "/" ++ q)).steps = (ofString p).steps ++ (ofString q).steps := by
  rw [steps, segments_append_slash, List.filter_append]
  rfl

theorem steps_of_no_slash {s : String} (nonempty : s ≠ "") (h : '/' ∉ s.toList) :
    (ofString s).steps = [s] := by
  rw [steps, segments_of_no_slash h]
  simp [nonempty]

theorem segments_empty : (ofString "").segments = [""] := segments_of_no_slash (by decide)

theorem segments_dot : (ofString ".").segments = ["."] := segments_of_no_slash (by decide)

theorem steps_empty : (ofString "").steps = [] := by
  rw [steps, segments_empty]
  rfl

theorem eq_append_slash {s : String} (h : s.toList.getLast? = some '/') : ∃ r, s = r ++ "/" := by
  obtain ⟨front, split⟩ := List.getLast?_eq_some_iff.mp h
  refine ⟨String.ofList front, String.ext ?_⟩
  rw [split, String.toList_append, String.toList_ofList]
  rfl

theorem join_cases (d : Path) {q : Path} (relative : q.isAbsolute = false) :
    (d.text = "" ∧ d.join q = q) ∨
    (∃ front, d.text = front ++ "/" ∧ d.join q = ofString (front ++ "/" ++ q.text)) ∨
    (d.text ≠ "" ∧ d.join q = ofString (d.text ++ "/" ++ q.text)) := by
  rw [join, if_neg (by simp [relative])]
  rcases last : d.text.toList.getLast? with _ | c
  · left
    refine ⟨?_, rfl⟩
    simpa using last
  · have nonempty : d.text ≠ "" := by
      intro empty
      simp [empty] at last
    by_cases slash : c = '/'
    · subst slash
      obtain ⟨front, same⟩ := eq_append_slash last
      exact .inr (.inl ⟨front, same, by rw [same]; rfl⟩)
    · right
      right
      refine ⟨nonempty, ?_⟩
      simp [ofString]

theorem steps_join (d : Path) {q : Path} (relative : q.isAbsolute = false) :
    (d.join q).steps = d.steps ++ q.steps := by
  rcases join_cases d relative with ⟨empty, same⟩ | ⟨front, text, same⟩ | ⟨_, same⟩
  · obtain rfl : d = ofString "" := congrArg ofString empty
    rw [same, steps_empty]
    rfl
  · obtain rfl : d = ofString (front ++ "/" ++ "") := by
      rw [String.append_empty, ← text]
      rfl
    rw [same, steps_append_slash, steps_append_slash, steps_empty, List.append_nil]
    rfl
  · rw [same, steps_append_slash]
    rfl

theorem isAbsolute_join (d : Path) {q : Path} (relative : q.isAbsolute = false) :
    (d.join q).isAbsolute = d.isAbsolute := by
  rcases join_cases d relative with ⟨empty, same⟩ | ⟨front, text, same⟩ | ⟨nonempty, same⟩
  · rw [same, relative, isAbsolute, empty]
    rfl
  · rw [same, isAbsolute, isAbsolute, text]
    cases chars : front.toList <;> simp [ofString, chars]
  · rw [same, isAbsolute, isAbsolute]
    cases chars : d.text.toList with
    | nil => exact absurd (by simpa using chars) nonempty
    | cons c rest => simp [ofString, chars]

section File

variable {name : String}

theorem isAbsolute_of_no_slash (h : '/' ∉ name.toList) : (ofString name).isAbsolute = false := by
  rw [isAbsolute, ofString]
  cases chars : name.toList with
  | nil => rfl
  | cons c rest =>
    have other : c ≠ '/' := by
      rintro rfl
      simp [chars] at h
    simpa using other

theorem isAbsolute_intercalate {names : List String}
    (cut : ∀ s ∈ names, s ≠ "" ∧ '/' ∉ s.toList) :
    (ofString ("/".intercalate names)).isAbsolute = false := by
  cases names with
  | nil => rfl
  | cons s rest =>
    obtain ⟨nonempty, apart⟩ := cut s List.mem_cons_self
    obtain ⟨c, cs, chars⟩ : ∃ c cs, s.toList = c :: cs :=
      List.exists_cons_of_ne_nil (by simpa using nonempty)
    have other : c ≠ '/' := by
      rintro rfl
      simp [chars] at apart
    cases rest <;> simp [isAbsolute, ofString, String.intercalate_cons_cons, chars, other]

theorem steps_file (d : Path) (nonempty : name ≠ "") (h : '/' ∉ name.toList) :
    (d.file name).steps = d.steps ++ [name] :=
  (steps_join d (isAbsolute_of_no_slash h)).trans
    (congrArg (d.steps ++ ·) (steps_of_no_slash nonempty h))

theorem isAbsolute_file (d : Path) (h : '/' ∉ name.toList) :
    (d.file name).isAbsolute = d.isAbsolute := isAbsolute_join d (isAbsolute_of_no_slash h)

theorem endsInSlash_append (front : String) (nonempty : name ≠ "") (h : '/' ∉ name.toList) :
    (ofString (front ++ name)).endsInSlash = false := by
  obtain ⟨start, c, chars⟩ : ∃ start c, name.toList = start ++ [c] := by
    rcases List.eq_nil_or_concat name.toList with empty | ⟨start, c, chars⟩
    · exact absurd (by simpa using empty) nonempty
    · exact ⟨start, c, by simpa using chars⟩
  have other : c ≠ '/' := by
    rintro rfl
    simp [chars] at h
  have last : name.toList.getLast? = some c := by simp [chars]
  rw [endsInSlash, ofString, String.toList_append, List.getLast?_append, last]
  simpa using other

theorem endsInSlash_file (d : Path) (nonempty : name ≠ "") (h : '/' ∉ name.toList) :
    (d.file name).endsInSlash = false := by
  rcases join_cases d (isAbsolute_of_no_slash h) with ⟨_, same⟩ | ⟨front, _, same⟩ | ⟨_, same⟩ <;>
    rw [file, ← ofString, same]
  · simpa using endsInSlash_append "" nonempty h
  · exact endsInSlash_append (front ++ "/") nonempty h
  · exact endsInSlash_append (d.text ++ "/") nonempty h

theorem fileName?_file (d : Path) (plain : PlainName name) :
    (d.file name).fileName? = some name := by
  have last : Component.ofStep name = .name name := by
    rw [Component.ofStep, if_neg plain.ne_current, if_neg plain.ne_parent]
  have steps := steps_file d plain.ne_empty plain.no_slash
  have parts : ∃ front, (d.file name).components = front ++ [.name name] := by
    rw [components, steps, List.map_append, List.map_singleton, last, List.filter_append]
    split
    · exact ⟨_ :: _, rfl⟩
    split
    · exact ⟨_ :: _, rfl⟩
    · exact ⟨_, rfl⟩
  obtain ⟨front, parts⟩ := parts
  rw [fileName?, parts, List.getLast?_concat]

end File

end Path

end NetworkCa
