import NetworkCa.Cli.Invocation
import NetworkCa.Proofs.Subject.Pieces
import NetworkCa.Proofs.Text.Replace
import NetworkCa.Subject.Template

namespace NetworkCa.Subject

variable {text front body first value name : List Char} {more pieces : List (List Char)}
variable {found : List (Option (Attribute × String))}

def dangling : List Char → Bool
  | [] => false
  | ['\\'] => true
  | '\\' :: _ :: rest => dangling rest
  | _ :: rest => dangling rest

theorem dangling_plain {c : Char} (other : c ≠ '\\') (rest : List Char) :
    dangling (c :: rest) = dangling rest := by
  rw [dangling]
  · intro same
    exact absurd same other
  · intro next tail same
    exact absurd same other

theorem eq_concat_of_dangling (h : dangling text = true) :
    ∃ front, text = front ++ ['\\'] ∧ dangling front = false := by
  fun_induction dangling text with
  | case1 => cases h
  | case2 => exact ⟨[], rfl, rfl⟩
  | case3 c rest ih =>
    obtain ⟨front, rfl, closed⟩ := ih h
    exact ⟨'\\' :: c :: front, rfl, closed⟩
  | case4 c rest single pair ih =>
    obtain ⟨front, rfl, closed⟩ := ih h
    have other : c ≠ '\\' := ne_backslash single pair
    exact ⟨c :: front, rfl, (dangling_plain other front).trans closed⟩

/-- Behind these pieces, the first piece of a further text is put to the last of them. -/
def Joins (cut : List Char → List (List Char)) (pieces : List (List Char)) : Prop :=
  ∃ init last, pieces = init ++ [last] ∧ ∀ tail first more, components tail = first :: more →
    cut tail = init ++ (last ++ first) :: more

theorem Joins.onHead {cut : List Char → List (List Char)} (h : Joins cut pieces) (c : Char) :
    Joins (fun tail => components.onHead c (cut tail)) (components.onHead c pieces) := by
  obtain ⟨init, last, rfl, joined⟩ := h
  cases init with
  | nil =>
    refine ⟨[], c :: last, rfl, fun tail first more h => ?_⟩
    dsimp only
    rw [joined tail first more h]
    rfl
  | cons piece init =>
    refine ⟨(c :: piece) :: init, last, rfl, fun tail first more h => ?_⟩
    dsimp only
    rw [joined tail first more h]
    rfl

theorem joins_components (closed : dangling front = false) :
    Joins (fun tail => components (front ++ tail)) (components front) := by
  fun_induction components front with
  | case1 => exact ⟨[], [], rfl, fun tail first more h => h⟩
  | case2 => cases closed
  | case3 c rest ih => simpa only [List.cons_append, components_escape] using (ih closed).onHead c
  | case4 rest ih =>
    obtain ⟨init, last, split, joined⟩ := ih closed
    refine ⟨[] :: init, last, by rw [split]; rfl, fun tail first more h => ?_⟩
    dsimp only at joined ⊢
    rw [List.cons_append, components_slash, joined tail first more h]
    rfl
  | case5 c rest single pair inner ih =>
    have other : c ≠ '\\' := ne_backslash single pair
    rw [dangling_plain other] at closed
    simpa only [List.cons_append, components_plain other inner] using (ih closed).onHead c

theorem components_append_slash (closed : dangling front = false) (rest : List Char) :
    components (front ++ '/' :: rest) = components front ++ components rest := by
  obtain ⟨init, last, split, joined⟩ := joins_components closed
  have whole := joined ('/' :: rest) [] (components rest) (components_slash rest)
  dsimp only at whole
  rw [List.append_nil] at whole
  rw [whole, split, List.append_assoc]
  rfl

theorem component_backslash {last : List Char} {x : Option (Attribute × String)}
    (h : component (last ++ ['\\']) = .ok x) :
    ∃ a value, x = some (a, String.ofList (value ++ ['\\'])) ∧
      ∀ d tail, component (last ++ d :: tail) =
        .ok (some (a, String.ofList (value ++ d :: tail))) := by
  obtain ⟨empty, _⟩ | ⟨before, a, value, apart, split, known, rfl⟩ := component_cases h
  · simp at empty
  obtain rfl | ⟨front, c, rfl⟩ := List.eq_nil_or_concat value
  · have ends := congrArg List.getLast? split
    simp at ends
  rw [List.concat_eq_append, ← List.cons_append, ← List.append_assoc] at split
  obtain ⟨rfl, ended⟩ := List.append_inj' split rfl
  cases ended
  refine ⟨a, front, by simp, fun d tail => ?_⟩
  rw [List.append_assoc, List.cons_append, component_split apart known, if_neg (by simp)]

/-- Behind a dangling backslash, the last attribute becomes another one. -/
theorem not_extended_of_dangling {rest : List Char} {longer : List (Option (Attribute × String))}
    (h : dangling body = true) (short : (components body).mapM component = .ok found)
    (long : (components (body ++ '/' :: rest)).mapM component = .ok longer)
    (extra : List (Attribute × String)) :
    longer.filterMap id ≠ found.filterMap id ++ extra := by
  obtain ⟨front, rfl, closed⟩ := eq_concat_of_dangling h
  obtain ⟨init, last, _, joined⟩ := joins_components closed
  dsimp only at joined
  obtain ⟨first, more, cut⟩ := List.exists_cons_of_ne_nil (components_ne_nil rest)
  have glued : components ('\\' :: '/' :: rest) = ('/' :: first) :: more := by
    rw [components_escape, cut]
    rfl
  rw [joined ['\\'] ['\\'] [] rfl] at short
  rw [List.append_assoc, List.singleton_append, joined _ _ _ glued] at long
  obtain ⟨before, one, read, lone, rfl⟩ := mapM_append_eq_ok.1 short
  obtain ⟨before', behind, read', onward, rfl⟩ := mapM_append_eq_ok.1 long
  cases read.symm.trans read'
  obtain ⟨x, none, backslash, ended, rfl⟩ := mapM_eq_ok_cons lone
  cases ended
  obtain ⟨y, later, slash, _, rfl⟩ := mapM_eq_ok_cons onward
  obtain ⟨a, value, rfl, other⟩ := component_backslash backslash
  rw [other '/' first] at slash
  cases slash
  intro same
  simp only [List.filterMap_append, List.append_assoc, List.append_cancel_left_eq] at same
  have values : String.ofList (value ++ '/' :: first) = String.ofList (value ++ ['\\']) :=
    congrArg Prod.snd (List.cons.inj same).1
  have chars := congrArg String.toList values
  simp at chars

def nameComponent (name : List Char) : List Char := 'C' :: 'N' :: '=' :: name

theorem components_nameComponent (h : components text = first :: more) :
    components (nameComponent text) = nameComponent first :: more := by
  rw [nameComponent, components_plain (by decide) (by decide),
    components_plain (by decide) (by decide), components_plain (by decide) (by decide), h]
  rfl

theorem component_nameComponent (value : List Char) :
    component (nameComponent value) =
      .ok (if value = [] then none else some (.commonName, String.ofList value)) := by
  show component (['C', 'N'] ++ '=' :: value) = _
  exact component_split (by decide) rfl

theorem sublist_of_nameComponent {a : String}
    (h : (components (nameComponent text)).mapM component = .ok found)
    (whole : found.filterMap id = [(.commonName, a)]) :
    a.toList.Sublist (components text).flatten := by
  obtain ⟨first, more, cut⟩ := List.exists_cons_of_ne_nil (components_ne_nil text)
  rw [components_nameComponent cut] at h
  obtain ⟨one, rest, read, onward, rfl⟩ := mapM_eq_ok_cons h
  rw [component_nameComponent] at read
  rw [cut, List.flatten_cons]
  by_cases empty : first = []
  · rw [if_pos empty] at read
    cases read
    rw [List.filterMap_cons_none rfl] at whole
    have later := values_sublist onward
    rw [whole] at later
    simpa [values, empty] using later
  · rw [if_neg empty] at read
    cases read
    have kept : (some (Attribute.commonName, String.ofList first) :: rest).filterMap id =
        (.commonName, String.ofList first) :: rest.filterMap id := rfl
    rw [kept, List.cons.injEq, Prod.mk.injEq] at whole
    rw [← whole.1.2, String.toList_ofList]
    exact List.sublist_append_left first more.flatten

theorem replace_nameComponent {mark : List Char} (apart : '=' ∉ mark)
    (other : Text.contains mark ['C', 'N'] = false) (new name : List Char) :
    Text.replace mark new (nameComponent name) = nameComponent (Text.replace mark new name) := by
  have whole : Text.replace mark new (['C', 'N'] ++ '=' :: name) = _ :=
    Text.replace_append_sep apart _ _
  rwa [Text.replace_of_not_contains other] at whole

theorem toList_render_below (ca : String) (i : Identity) :
    (render (LeafSettings.subjectBelow ca) i).toList = (render ca i).toList ++
      '/' :: nameComponent (Text.replace roleMark i.role.tag.toList i.name.toList) := by
  have below : (LeafSettings.subjectBelow ca).toList =
      ca.toList ++ '/' :: nameComponent nameMark := by
    rw [LeafSettings.subjectBelow, String.toList_append]
    rfl
  rw [render, render, String.toList_ofList, String.toList_ofList, below,
    Text.replace_append_sep (by decide), replace_nameComponent (by decide) (by decide),
    Text.replace_self (by decide), Text.replace_append_sep (by decide),
    replace_nameComponent (by decide) (by decide)]

structure Verbatim (name : List Char) : Prop where
  unsplit : '/' ∉ name
  unescaped : '\\' ∉ name.dropLast
  unmarked : Text.contains roleMark name = false

theorem brace_free_tag (role : Role) : '\x7b' ∉ role.tag.toList := by cases role <;> decide

theorem components_verbatim (h : Verbatim name) :
    components (nameComponent name) = [nameComponent name] :=
  components_nameComponent (components_of_plain h.unsplit h.unescaped)

theorem verbatim_of_sublist {role : Role}
    (h : name.Sublist (components (Text.replace roleMark role.tag.toList name)).flatten) :
    Verbatim name := by
  have written := h.trans (flatten_components_sublist _)
  have unmarked : Text.contains roleMark name = false := by
    rw [Bool.eq_false_iff]
    intro marked
    have fewer := Text.count_replace_lt (brace_free_tag role) (by decide) marked
    have more := written.count_le '\x7b'
    omega
  rw [Text.replace_of_not_contains unmarked] at h
  have whole := (flatten_components_sublist name).eq_of_length_le h.length_le
  obtain ⟨unsplit, unescaped⟩ := plain_of_flatten_components whole
  exact ⟨unsplit, unescaped, unmarked⟩

variable {ca : String} {i : Identity} {b : Subject}

/-- Below a template that can be read, a name is added as one more attribute exactly if the text of
    the template is closed and the name stands for itself. -/
theorem forIdentity_below_iff (read : forIdentity ca i = .ok b) (named : i.name ≠ "") :
    forIdentity (LeafSettings.subjectBelow ca) i =
        .ok ⟨b.attributes ++ [(.commonName, i.name)]⟩ ↔
      dangling (render ca i).toList = false ∧ Verbatim i.name.toList := by
  obtain ⟨body, found, chars, pieces, attributes, some⟩ := parse_eq_ok.1 read
  have open_iff : dangling (render ca i).toList = dangling body := by
    rw [chars, dangling_plain (by decide)]
  have below := toList_render_below ca i
  rw [chars, List.cons_append] at below
  rw [open_iff]
  constructor
  · intro h
    obtain ⟨body', found', chars', pieces', attributes', _⟩ := parse_eq_ok.1 h
    rw [below, List.cons.injEq] at chars'
    rw [← chars'.2] at pieces'
    dsimp only at attributes'
    have closed : dangling body = false := by
      rw [Bool.eq_false_iff]
      intro dangles
      have other := not_extended_of_dangling dangles pieces pieces' [(.commonName, i.name)]
      rw [← attributes, attributes'] at other
      exact other rfl
    rw [components_append_slash closed] at pieces'
    obtain ⟨front, back, readFront, readBack, rfl⟩ := mapM_append_eq_ok.1 pieces'
    cases pieces.symm.trans readFront
    rw [List.filterMap_append, ← attributes, List.append_cancel_left_eq] at attributes'
    exact ⟨closed, verbatim_of_sublist (sublist_of_nameComponent readBack attributes'.symm)⟩
  · rintro ⟨closed, verbatim⟩
    rw [Text.replace_of_not_contains verbatim.unmarked] at below
    have filled : i.name.toList ≠ [] := by simpa using named
    have last : (components (nameComponent i.name.toList)).mapM component =
        .ok [Option.some (.commonName, i.name)] := by
      rw [components_verbatim verbatim, List.mapM_cons, component_nameComponent, if_neg filled,
        String.ofList_toList]
      rfl
    refine parse_eq_ok.2 ⟨_, found ++ [Option.some (.commonName, i.name)], below, ?_, ?_, by simp⟩
    · rw [components_append_slash closed]
      exact mapM_append_eq_ok.2 ⟨found, _, pieces, last, rfl⟩
    · rw [List.filterMap_append, ← attributes]
      rfl

def Unmarked (text : List Char) : Prop :=
  Text.contains nameMark text = false ∧ Text.contains roleMark text = false

instance (text : List Char) : Decidable (Unmarked text) := inferInstanceAs (Decidable (_ ∧ _))

theorem Unmarked.render {text : String} (h : Unmarked text.toList) (i : Identity) :
    render text i = text := by
  rw [Subject.render, Text.replace_of_not_contains h.1, Text.replace_of_not_contains h.2,
    String.ofList_toList]

theorem unmarked_of_count (free : '\x7b' ∉ i.name.toList)
    (kept : ca.toList.count '\x7b' ≤ (render ca i).toList.count '\x7b') : Unmarked ca.toList := by
  rw [render, String.toList_ofList] at kept
  have tag := brace_free_tag i.role
  have fewer : (Text.replace roleMark i.role.tag.toList _).count '\x7b' ≤ _ :=
    Text.count_replace_le tag (Text.replace nameMark i.name.toList ca.toList)
  have unnamed : Text.contains nameMark ca.toList = false := by
    rw [Bool.eq_false_iff]
    intro marked
    have less := Text.count_replace_lt free (by decide) marked
    omega
  rw [Text.replace_of_not_contains unnamed] at kept
  refine ⟨unnamed, ?_⟩
  rw [Bool.eq_false_iff]
  intro marked
  have less := Text.count_replace_lt tag (by decide) marked
  omega

theorem unmarked_of_below (read : parse ca = .ok b) (free : '\x7b' ∉ i.name.toList)
    (h : forIdentity (LeafSettings.subjectBelow ca) i =
      .ok ⟨b.attributes ++ [(.commonName, i.name)]⟩) : Unmarked ca.toList := by
  have before := count_of_parse read
  have after := count_of_parse h
  have written : (Text.replace roleMark i.role.tag.toList _).count '\x7b' ≤ _ :=
    Text.count_replace_le (brace_free_tag i.role) i.name.toList
  have name : i.name.toList.count '\x7b' = 0 := List.count_eq_zero.2 free
  have last : (values [(Attribute.commonName, i.name)]).count '\x7b' = 0 := by
    simpa [values] using name
  have component (text : List Char) : (nameComponent text).count '\x7b' = text.count '\x7b' := by
    simp [nameComponent]
  rw [toList_render_below, List.count_append, List.count_cons_of_ne (by decide), component,
    values, List.flatMap_append, List.count_append, ← values, ← values, before, last] at after
  exact unmarked_of_count free (by omega)

/-- The subject of a leaf is the authority's with the leaf's name below it, unless the authority's
    subject has marks or ends in a backslash that escapes what follows, or the name does not stand
    for itself in a template: these are put together as one text, in which nothing is escaped. -/
theorem leaf_subject_iff {given : Cli.Given} {ca : AuthoritySettings}
    (unset : given.lookup "subject" = none) (read : parse ca.subject = .ok b) (named : i.name ≠ "") :
    (Unmarked ca.subject.toList ∨ '\x7b' ∉ i.name.toList →
      (forIdentity (Cli.leafOf given ca).subject i =
          .ok ⟨b.attributes ++ [(.commonName, i.name)]⟩ ↔
        Unmarked ca.subject.toList ∧ dangling ca.subject.toList = false ∧
          Verbatim i.name.toList)) ∧
    ∀ rendered, forIdentity ca.subject i = .ok rendered →
      (forIdentity (Cli.leafOf given ca).subject i =
          .ok ⟨rendered.attributes ++ [(.commonName, i.name)]⟩ ↔
        dangling (render ca.subject i).toList = false ∧ Verbatim i.name.toList) := by
  have template : (Cli.leafOf given ca).subject = LeafSettings.subjectBelow ca.subject := by
    simp only [Cli.leafOf, Cli.Given.text, unset, Option.getD_none]
  rw [template]
  refine ⟨fun clear => ?_, fun rendered known => forIdentity_below_iff known named⟩
  have exact_of_unmarked (unmarked : Unmarked ca.subject.toList) :
      forIdentity (LeafSettings.subjectBelow ca.subject) i =
          .ok ⟨b.attributes ++ [(.commonName, i.name)]⟩ ↔
        dangling ca.subject.toList = false ∧ Verbatim i.name.toList := by
    have same := unmarked.render i
    have template : forIdentity ca.subject i = .ok b := by rw [forIdentity, same, read]
    have whole := forIdentity_below_iff template named
    rwa [same] at whole
  constructor
  · intro h
    have unmarked := clear.elim id fun free => unmarked_of_below read free h
    exact ⟨unmarked, (exact_of_unmarked unmarked).1 h⟩
  · rintro ⟨unmarked, plain⟩
    exact (exact_of_unmarked unmarked).2 plain

theorem leaf_subject_of_role_named :
    forIdentity (Cli.leafOf [] .default).subject ⟨.client, ⟨"D"⟩, "client0", "CA.pem"⟩ =
        .ok ⟨[(.country, "CN"), (.state, "Beijing"), (.locality, "."), (.organization, "MadLedger"),
          (.commonName, "client0")]⟩ ∧
      forIdentity (Cli.leafOf [] .default).subject ⟨.client, ⟨"D"⟩, "\x7brole\x7d", "CA.pem"⟩ ≠
        .ok ⟨[(.country, "CN"), (.state, "Beijing"), (.locality, "."), (.organization, "MadLedger"),
          (.commonName, "\x7brole\x7d")]⟩ := by
  have read : parse AuthoritySettings.default.subject = .ok ⟨[(.country, "CN"),
      (.state, "Beijing"), (.locality, "."), (.organization, "MadLedger")]⟩ := rfl
  have verbatim : Verbatim "client0".toList := ⟨by decide, by decide, by decide⟩
  have clear : Unmarked AuthoritySettings.default.subject.toList := by decide
  constructor
  · exact ((leaf_subject_iff rfl read (by decide)).1 (.inl clear)).2 ⟨clear, by decide, verbatim⟩
  · intro h
    have only := ((leaf_subject_iff rfl read (by decide)).1 (.inl clear)).1 h
    exact absurd only.2.2.unmarked (by decide)

end NetworkCa.Subject
