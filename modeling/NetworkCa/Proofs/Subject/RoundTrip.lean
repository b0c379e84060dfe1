import NetworkCa.Proofs.Subject.Spelling
import NetworkCa.Proofs.Text.Split

namespace NetworkCa

namespace Subject

open components (onHead)

variable {text rest first value : List Char} {more : List (List Char)} {s : Subject}

def values (attributes : List (Attribute × String)) : List Char :=
  attributes.flatMap (·.2.toList)

/-- No value has a backslash, except that the last may end in one. -/
def Faithful (s : Subject) : Prop := '\\' ∉ (values s.attributes).dropLast

instance : Decidable s.Faithful := inferInstanceAs (Decidable (_ ∉ _))

theorem spells_escapedValue (plain : '\\' ∉ value) : Spells (escapedValue value) value := by
  induction value with
  | nil => exact .nil
  | cons c cs ih =>
    rw [List.mem_cons, not_or] at plain
    rw [escapedValue, List.flatMap_cons, ← escapedValue]
    by_cases slash : c = '/'
    · rw [if_pos slash, slash]
      exact .escaped '/' (ih plain.2)
    · rw [if_neg slash]
      exact .plain slash (Ne.symm plain.1) (ih plain.2)

theorem components_escapedValue (plain : '\\' ∉ value) (h : components rest = first :: more) :
    components (escapedValue value ++ rest) = (value ++ first) :: more :=
  components_spelled (spells_escapedValue plain) h

def keyAndValue (a : Attribute × String) : List Char :=
  a.1.shortName.toList ++ '=' :: a.2.toList

theorem shortName_plain (a : Attribute) :
    '\\' ∉ a.shortName.toList ∧ '/' ∉ a.shortName.toList ∧ '=' ∉ a.shortName.toList := by
  cases a <;> decide

theorem trim_shortName (a : Attribute) : Text.trim a.shortName.toList = a.shortName.toList := by
  cases a <;> decide

theorem escapedValue_append (a b : List Char) :
    escapedValue (a ++ b) = escapedValue a ++ escapedValue b := List.flatMap_append

theorem escapedValue_of_no_slash (plain : '/' ∉ value) : escapedValue value = value := by
  induction value with
  | nil => rfl
  | cons c cs ih =>
    have inner : c ≠ '/' := fun same => plain (by simp [same])
    have tail := ih fun member => plain (List.mem_cons_of_mem c member)
    rw [escapedValue, List.flatMap_cons, if_neg inner, ← escapedValue, tail]
    rfl

theorem printAttribute_eq (a : Attribute × String) :
    printAttribute a = '/' :: escapedValue (keyAndValue a) := by
  have name := escapedValue_of_no_slash (shortName_plain a.1).2.1
  rw [keyAndValue, escapedValue_append, name]
  rfl

theorem component_keyAndValue {a : Attribute × String} (nonempty : a.2 ≠ "") :
    component (keyAndValue a) = .ok (some a) := by
  have there : (keyAndValue a).isEmpty = false := by simp [keyAndValue]
  have cut := Text.splitOnce_append (shortName_plain a.1).2.2 a.2.toList
  have full : a.2.toList.isEmpty = false := by simpa using nonempty
  rw [component, there, if_neg (by simp), keyAndValue, cut]
  simp only [trim_shortName, String.ofList_toList, Attribute.ofShortName?_shortName, full,
    Bool.false_eq_true, if_false]

theorem component_eq_some {piece : List Char} {a : Attribute × String}
    (h : component piece = .ok (some a)) :
    a.2 ≠ "" ∧ ∃ before, piece = before ++ '=' :: a.2.toList := by
  unfold component at h
  split at h
  · cases h
  split at h
  · cases h
  next before value cut =>
  dsimp only at h
  split at h
  · cases h
  next named known =>
  split at h
  · cases h
  next full =>
  cases h
  exact ⟨by simpa using full, before, by simpa using Text.eq_append_of_splitOnce cut⟩

theorem parseChars_slash (body : List Char) :
    parseChars ('/' :: body) =
      match (components body).mapM component with
      | .error e => .error e
      | .ok found =>
        match found.filterMap id with
        | [] => .error .empty
        | attributes => .ok ⟨attributes⟩ := by
  rw [parseChars]
  rcases (components body).mapM component with e | found
  · rfl
  · dsimp only
    cases kept : found.filterMap id <;> simp only [bind, Except.bind, kept] <;> rfl

theorem parse_eq_ok {text : String} :
    parse text = .ok s ↔ ∃ body found, text.toList = '/' :: body ∧
      (components body).mapM component = .ok found ∧ s.attributes = found.filterMap id ∧
      s.attributes ≠ [] := by
  rw [parse]
  constructor
  · intro h
    by_cases slash : ∃ body, text.toList = '/' :: body
    · obtain ⟨body, chars⟩ := slash
      rw [chars, parseChars_slash] at h
      rcases pieces : (components body).mapM component with e | found <;> rw [pieces] at h
      · cases h
      · dsimp only at h
        split at h
        · cases h
        · next some =>
          cases h
          exact ⟨body, found, chars, pieces, rfl, some⟩
    · unfold parseChars at h
      split at h
      · next body chars => exact absurd ⟨body, chars⟩ slash
      · cases h
  · rintro ⟨body, found, chars, pieces, attributes, some⟩
    rw [chars, parseChars_slash, pieces]
    dsimp only
    rw [← attributes]
    split
    · next none => exact absurd none some
    · rfl

theorem values_cons (a : Attribute × String) (rest : List (Attribute × String)) :
    values (a :: rest) = a.2.toList ++ values rest := List.flatMap_cons

theorem values_ne_nil {attributes : List (Attribute × String)} (some : attributes ≠ [])
    (full : ∀ a ∈ attributes, a.2 ≠ "") : values attributes ≠ [] := by
  cases attributes with
  | nil => exact absurd rfl some
  | cons a rest =>
    have first := full a (by simp)
    simp [values_cons, first]

theorem components_escapedLast (c : Char) : components (escapedValue [c]) = [[c]] := by
  by_cases slash : c = '/'
  · subst slash
    rfl
  · rw [escapedValue_of_no_slash (by simpa using Ne.symm slash)]
    exact components_singleton slash

theorem components_printed {a : Attribute × String} {rest : List (Attribute × String)}
    (full : ∀ b ∈ a :: rest, b.2 ≠ "") (plain : '\\' ∉ (values (a :: rest)).dropLast) :
    components (escapedValue (keyAndValue a) ++ rest.flatMap printAttribute) =
      (a :: rest).map keyAndValue := by
  induction rest generalizing a with
  | nil =>
    -- The last character may be a backslash: it stands for itself at the end of the text.
    have some : a.2.toList ≠ [] := by simpa using full a (by simp)
    obtain ⟨front, last, split⟩ := List.eq_nil_or_concat a.2.toList |>.resolve_left some
    rw [List.concat_eq_append] at split
    have plain : '\\' ∉ a.1.shortName.toList ++ '=' :: front := by
      have inner : '\\' ∉ front := by simpa [values, split] using plain
      simp [(shortName_plain a.1).1, inner]
    have cut : keyAndValue a = (a.1.shortName.toList ++ '=' :: front) ++ [last] := by
      simp [keyAndValue, split]
    rw [List.flatMap_nil, List.append_nil, List.map_singleton, cut, escapedValue_append,
      components_escapedValue plain (components_escapedLast last)]
  | cons b rest ih =>
    have later : values (b :: rest) ≠ [] :=
      values_ne_nil (by simp) fun c member => full c (List.mem_cons_of_mem a member)
    rw [values_cons, List.dropLast_append_of_ne_nil later, List.mem_append, not_or] at plain
    have onward := ih (fun c member => full c (List.mem_cons_of_mem a member)) plain.2
    have next : components ((b :: rest).flatMap printAttribute) =
        [] :: (b :: rest).map keyAndValue := by
      rw [List.flatMap_cons, printAttribute_eq, List.cons_append, components, onward]
    have text : '\\' ∉ keyAndValue a := by simp [keyAndValue, (shortName_plain a.1).1, plain.1]
    rw [components_escapedValue text next, List.append_nil, ← List.map_cons]

theorem mapM_component {attributes : List (Attribute × String)}
    (full : ∀ a ∈ attributes, a.2 ≠ "") :
    (attributes.map keyAndValue).mapM component = .ok (attributes.map some) := by
  induction attributes with
  | nil => rfl
  | cons a rest ih =>
    have tail := ih fun b member => full b (List.mem_cons_of_mem a member)
    rw [List.map_cons, List.mapM_cons, component_keyAndValue (full a (by simp)), tail]
    rfl

theorem mapM_eq_ok_cons {piece : List Char} {pieces : List (List Char)}
    {found : List (Option (Attribute × String))}
    (h : (piece :: pieces).mapM component = .ok found) :
    ∃ first rest, component piece = .ok first ∧ pieces.mapM component = .ok rest ∧
      found = first :: rest := by
  rw [List.mapM_cons] at h
  rcases read : component piece with e | first <;> rw [read] at h
  · cases h
  rcases onward : pieces.mapM component with e | rest <;> rw [onward] at h
  · cases h
  · cases h
    exact ⟨first, rest, rfl, rfl, rfl⟩

/-- How many characters of a text are spent on its backslashes, doubled, and on its slashes. -/
def weight (text : List Char) : Nat := 2 * text.count '\\' + text.count '/'

theorem weight_append (a b : List Char) : weight (a ++ b) = weight a + weight b := by
  simp only [weight, List.count_append]
  omega

theorem weight_values_le {pieces : List (List Char)} {found : List (Option (Attribute × String))}
    (h : pieces.mapM component = .ok found) :
    weight (values (found.filterMap id)) ≤ weight pieces.flatten := by
  induction pieces generalizing found with
  | nil =>
    cases h
    exact Nat.le_refl _
  | cons piece pieces ih =>
    obtain ⟨first, rest, read, onward, rfl⟩ := mapM_eq_ok_cons h
    have tail := ih onward
    rw [List.flatten_cons, weight_append]
    cases first with
    | none =>
      rw [List.filterMap_cons_none rfl]
      omega
    | some a =>
      obtain ⟨_, before, rfl⟩ := component_eq_some read
      have key : weight (before ++ '=' :: a.2.toList) = weight before + weight a.2.toList := by
        rw [weight_append]
        rfl
      have kept : (some a :: rest).filterMap id = a :: rest.filterMap id := rfl
      rw [kept, values_cons, weight_append, key]
      omega

theorem flatten_onHead (c : Char) (pieces : List (List Char)) :
    (onHead c pieces).flatten = c :: pieces.flatten := by cases pieces <;> rfl

def lastBackslash (text : List Char) : Nat := if text.getLast? = some '\\' then 1 else 0

theorem lastBackslash_le_cons (c : Char) (rest : List Char) :
    lastBackslash rest ≤ lastBackslash (c :: rest) := by
  cases rest with
  | nil => exact Nat.zero_le _
  | cons d rest => exact Nat.le_of_eq (by rw [lastBackslash, lastBackslash, List.getLast?_cons_cons])

/-- Each backslash that is read was written as two, and each slash with one before it. The last
    character of a text alone can be a backslash on its own. -/
theorem weight_components_le (text : List Char) :
    weight (components text).flatten ≤ text.count '\\' + lastBackslash text := by
  fun_induction components text with
  | case1 => exact Nat.zero_le _
  | case2 => decide
  | case3 c rest ih =>
    have last := lastBackslash_le_cons c rest
    have further := lastBackslash_le_cons '\\' (c :: rest)
    have all : ('\\' :: c :: rest).count '\\' = rest.count '\\' + [c].count '\\' + 1 := by
      rw [List.count_cons_self, List.count_cons, List.count_singleton]
    have one : weight [c] ≤ [c].count '\\' + 1 := by
      by_cases backslash : c = '\\'
      · subst backslash
        decide
      · by_cases slash : c = '/' <;> simp [weight, backslash, slash]
    rw [flatten_onHead, ← List.singleton_append, weight_append, all]
    omega
  | case4 rest ih =>
    have last := lastBackslash_le_cons '/' rest
    have none : weight ([] :: components rest).flatten = weight (components rest).flatten := rfl
    rw [none, List.count_cons_of_ne (by decide)]
    omega
  | case5 c rest single pair inner ih =>
    have last := lastBackslash_le_cons c rest
    have other : c ≠ '\\' := ne_backslash single pair
    have apart : c ≠ '/' := inner
    have one : weight [c] = 0 := by simp [weight, other, apart]
    rw [flatten_onHead, ← List.singleton_append, weight_append, List.count_cons_of_ne other]
    omega

theorem count_escapedValue (value : List Char) :
    (escapedValue value).count '\\' = value.count '\\' + value.count '/' := by
  induction value with
  | nil => rfl
  | cons c cs ih =>
    have head : escapedValue (c :: cs) = escapedValue [c] ++ escapedValue cs :=
      escapedValue_append [c] cs
    have one : (escapedValue [c]).count '\\' = [c].count '\\' + [c].count '/' := by
      by_cases slash : c = '/' <;> simp [escapedValue, slash]
    rw [head, List.count_append, ih, one, ← List.singleton_append (l := cs), List.count_append,
      List.count_append]
    omega

theorem count_printed (attributes : List (Attribute × String)) :
    (attributes.flatMap printAttribute).count '\\' =
      (values attributes).count '\\' + (values attributes).count '/' := by
  induction attributes with
  | nil => rfl
  | cons a rest ih =>
    have name : a.1.shortName.toList.count '\\' = 0 := List.count_eq_zero.2 (shortName_plain a.1).1
    have front : (printAttribute a).count '\\' = (escapedValue a.2.toList).count '\\' := by
      simp [printAttribute, name]
    rw [List.flatMap_cons, values_cons, List.count_append, ih, front, count_escapedValue,
      List.count_append, List.count_append]
    omega

theorem getLast?_escapedValue (value : List Char) :
    (escapedValue value).getLast? = value.getLast? := by
  obtain rfl | ⟨front, c, rfl⟩ := List.eq_nil_or_concat value
  · rfl
  · rw [List.concat_eq_append, escapedValue_append]
    by_cases slash : c = '/' <;> simp [escapedValue, slash]

theorem getLast?_printed {attributes : List (Attribute × String)} (some : attributes ≠ [])
    (full : ∀ a ∈ attributes, a.2 ≠ "") :
    (attributes.flatMap printAttribute).getLast? = (values attributes).getLast? := by
  obtain ⟨front, a, rfl⟩ := (List.eq_nil_or_concat attributes).resolve_left some
  have there : a.2.toList ≠ [] := by simpa using full a (by simp)
  have last : (escapedValue a.2.toList).getLast? = a.2.toList.getLast? := getLast?_escapedValue _
  rw [List.getLast?_eq_some_getLast there] at last
  have printed : (printAttribute a).getLast? = Option.some (a.2.toList.getLast there) := by
    have split : printAttribute a = ('/' :: a.1.shortName.toList ++ ['=']) ++ escapedValue a.2.toList :=
      by simp [printAttribute]
    rw [split, List.getLast?_append, last, Option.some_or]
  rw [List.concat_eq_append, values, List.flatMap_append, List.flatMap_append, List.flatMap_singleton,
    List.flatMap_singleton, List.getLast?_append, List.getLast?_append, printed,
    List.getLast?_eq_some_getLast there, Option.some_or, Option.some_or]

theorem full_of_mapM {pieces : List (List Char)} {found : List (Option (Attribute × String))}
    (h : pieces.mapM component = .ok found) : ∀ a ∈ found.filterMap id, a.2 ≠ "" := by
  induction pieces generalizing found with
  | nil =>
    cases h
    exact fun _ member => absurd member List.not_mem_nil
  | cons piece pieces ih =>
    obtain ⟨first, rest, read, onward, rfl⟩ := mapM_eq_ok_cons h
    cases first with
    | none =>
      rw [List.filterMap_cons_none rfl]
      exact ih onward
    | some a =>
      have kept : (some a :: rest).filterMap id = a :: rest.filterMap id := rfl
      rw [kept, List.forall_mem_cons]
      exact ⟨(component_eq_some read).1, ih onward⟩

theorem faithful_of_parse_print (some : s.attributes ≠ []) (full : ∀ a ∈ s.attributes, a.2 ≠ "")
    (h : parse s.print = .ok s) : s.Faithful := by
  obtain ⟨body, found, chars, read, kept, _⟩ := parse_eq_ok.1 h
  rw [print, String.toList_ofList] at chars
  have count : body.count '\\' = (values s.attributes).count '\\' + (values s.attributes).count '/' := by
    rw [← count_printed, chars, List.count_cons_of_ne (by decide)]
  have read : weight (values s.attributes) ≤ body.count '\\' + lastBackslash body := by
    have written := weight_values_le read
    rw [← kept] at written
    exact Nat.le_trans written (weight_components_le body)
  have few : (values s.attributes).count '\\' ≤ lastBackslash body := by
    simp only [weight] at read
    omega
  obtain ⟨front, c, split⟩ :=
    (List.eq_nil_or_concat (values s.attributes)).resolve_left (values_ne_nil some full)
  rw [List.concat_eq_append] at split
  have last : ('/' :: body).getLast? = Option.some c := by
    rw [← chars, getLast?_printed some full, split, List.getLast?_concat]
  have ends : lastBackslash body ≤ [c].count '\\' := by
    have := lastBackslash_le_cons '/' body
    have one : lastBackslash ('/' :: body) = [c].count '\\' := by
      rw [lastBackslash, last]
      by_cases backslash : c = '\\' <;> simp [backslash]
    omega
  rw [split, List.count_append] at few
  rw [Faithful, split, List.dropLast_concat]
  exact List.count_eq_zero.1 (by omega)

theorem parse_print_of_faithful (some : s.attributes ≠ []) (full : ∀ a ∈ s.attributes, a.2 ≠ "")
    (plain : s.Faithful) : parse s.print = .ok s := by
  obtain ⟨a, rest, attributes⟩ := List.exists_cons_of_ne_nil some
  rw [Faithful, attributes] at plain
  rw [attributes] at full
  have cut := components_printed full plain
  refine parse_eq_ok.2 ⟨escapedValue (keyAndValue a) ++ rest.flatMap printAttribute,
    (a :: rest).map Option.some, ?_, cut ▸ mapM_component full, by simp [attributes], some⟩
  rw [print, String.toList_ofList, attributes, List.flatMap_cons, printAttribute_eq, List.cons_append]

/-- Of a subject that `parse` takes, the printed text denotes the same subject exactly if none of
    its values has a backslash, the last character of the last value apart: `print` escapes
    slashes only, and `parse` takes every backslash away that another character follows. -/
theorem parse_print_iff {text : String} (h : parse text = .ok s) :
    parse s.print = .ok s ↔ s.Faithful := by
  obtain ⟨body, found, _, read, kept, some⟩ := parse_eq_ok.1 h
  have full : ∀ a ∈ s.attributes, a.2 ≠ "" := kept ▸ full_of_mapM read
  exact ⟨faithful_of_parse_print some full, parse_print_of_faithful some full⟩

theorem parse_print_inner_backslash :
    parse "/O=a\\\\b/CN=c" = .ok ⟨[(.organization, "a\\b"), (.commonName, "c")]⟩ ∧
      parse (print ⟨[(.organization, "a\\b"), (.commonName, "c")]⟩) ≠
        .ok ⟨[(.organization, "a\\b"), (.commonName, "c")]⟩ := by
  have read : parse "/O=a\\\\b/CN=c" = .ok ⟨[(.organization, "a\\b"), (.commonName, "c")]⟩ := rfl
  exact ⟨read, fun again => absurd ((parse_print_iff read).1 again) (by decide)⟩

end Subject

end NetworkCa
