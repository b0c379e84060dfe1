import NetworkCa.Proofs.Subject.Pieces

namespace NetworkCa.Subject

variable {text body rest piece value before after : List Char} {pieces more : List (List Char)}
variable {attributes : List (Attribute × String)} {e : SubjectError}

inductive Faults : List Char → SubjectError → Prop
  | malformed {piece : List Char} (there : piece ≠ []) (keyless : '=' ∉ piece) :
      Faults piece (.malformedComponent (String.ofList piece))
  | unknown {key value : List Char} (apart : '=' ∉ key)
      (other : ∀ a : Attribute, Text.trim key ≠ a.shortName.toList) :
      Faults (key ++ '=' :: value) (.unknownAttribute (String.ofList (Text.trim key)))

/-- A component that says nothing: an empty one, or a key without a value. -/
def Idle (piece : List Char) : Prop :=
  piece = [] ∨ ∃ key, ∃ a : Attribute, '=' ∉ key ∧ Text.trim key = a.shortName.toList ∧
    piece = key ++ ['=']

inductive FirstFault : List (List Char) → SubjectError → Prop
  | here {piece : List Char} {more : List (List Char)} {e : SubjectError} :
      Faults piece e → FirstFault (piece :: more) e
  | later {piece : List Char} {more : List (List Char)} {e : SubjectError}
      (sound : ∀ e', ¬ Faults piece e') : FirstFault more e → FirstFault (piece :: more) e

theorem ofShortName?_eq_none {key : List Char} :
    Attribute.ofShortName? (String.ofList key) = none ↔
      ∀ a : Attribute, key ≠ a.shortName.toList := by
  have all (a : Attribute) : a ∈ Attribute.all := by cases a <;> decide
  rw [Attribute.ofShortName?, List.find?_eq_none]
  constructor
  · intro none a same
    exact none a (all a) (by simp [same])
  · intro other a _ same
    have same : a.shortName = String.ofList key := by simpa using same
    exact other a (by rw [same, String.toList_ofList])

theorem component_eq_error : component piece = .error e ↔ Faults piece e := by
  constructor
  · intro h
    unfold component at h
    split at h
    · cases h
    next there =>
    split at h
    · next keyless =>
      cases h
      exact .malformed (by simpa using there) (Text.splitOnce_eq_none.1 keyless)
    next key value cut =>
    dsimp only at h
    split at h
    · next unknown =>
      cases h
      obtain ⟨rfl, apart⟩ := Text.splitOnce_eq_some.1 cut
      exact .unknown apart (ofShortName?_eq_none.1 unknown)
    · cases h
  · intro fault
    cases fault with
    | malformed there keyless =>
      rw [component, if_neg (by simpa using there), Text.splitOnce_eq_none.2 keyless]
    | unknown apart other =>
      rw [component, if_neg (by simp), Text.splitOnce_append apart]
      dsimp only
      rw [ofShortName?_eq_none.2 other]

theorem component_eq_none : component piece = .ok none ↔ Idle piece := by
  constructor
  · intro h
    obtain ⟨empty, _⟩ | ⟨key, a, value, apart, split, known, none⟩ := component_cases h
    · exact .inl empty
    · by_cases valueless : value = []
      · exact .inr ⟨key, a, apart, known, by rw [split, valueless]⟩
      · rw [if_neg valueless] at none
        cases none
  · intro idle
    rcases idle with rfl | ⟨key, a, apart, known, rfl⟩
    · rfl
    · rw [component_split apart known, if_pos rfl]

theorem mapM_eq_error_iff : pieces.mapM component = .error e ↔ FirstFault pieces e := by
  induction pieces with
  | nil => exact ⟨nofun, nofun⟩
  | cons piece pieces ih =>
    rw [List.mapM_cons]
    rcases read : component piece with e' | x
    · constructor
      · intro h
        cases h
        exact .here (component_eq_error.1 read)
      · intro fault
        cases fault with
        | here fault =>
          cases read.symm.trans (component_eq_error.2 fault)
          rfl
        | later sound => exact absurd (component_eq_error.1 read) (sound e')
    · have sound (e' : SubjectError) : ¬ Faults piece e' := fun fault => by
        cases read.symm.trans (component_eq_error.2 fault)
      have onward : (do let x' ← Except.ok x; let rest ← pieces.mapM component; pure (x' :: rest)) =
          (Except.error e : Except SubjectError _) ↔ pieces.mapM component = .error e := by
        cases pieces.mapM component <;> simp [bind, Except.bind, pure, Except.pure]
      rw [onward, ih]
      constructor
      · exact .later sound
      · intro fault
        cases fault with
        | here fault => exact absurd fault (sound e)
        | later _ fault => exact fault

def Tells (pieces : List (List Char)) (attributes : List (Attribute × String)) : Prop :=
  ∃ found, pieces.mapM component = .ok found ∧ found.filterMap id = attributes

theorem Tells.idle (idle : Idle piece) (onward : Tells more attributes) :
    Tells (piece :: more) attributes := by
  obtain ⟨found, read, kept⟩ := onward
  refine ⟨none :: found, ?_, kept⟩
  rw [List.mapM_cons, component_eq_none.2 idle, read]
  rfl

theorem Tells.attribute {a : Attribute} {value : String} (apart : '=' ∉ before)
    (known : Text.trim before = a.shortName.toList)
    (onward : Tells more (attributes.filter (·.2 ≠ ""))) :
    Tells ((before ++ '=' :: value.toList) :: more)
      (((a, value) :: attributes).filter (·.2 ≠ "")) := by
  have here : component (before ++ '=' :: value.toList) = _ := component_split apart known
  by_cases empty : value = ""
  · rw [if_pos (by simp [empty])] at here
    rw [List.filter_cons_of_neg (by simp [empty])]
    exact onward.idle (component_eq_none.1 here)
  · rw [if_neg (by simpa using empty), String.ofList_toList] at here
    obtain ⟨found, read, kept⟩ := onward
    refine ⟨some (a, value) :: found, ?_, ?_⟩
    · rw [List.mapM_cons, here, read]
      rfl
    · rw [List.filter_cons_of_pos (by simp [empty]), ← kept]
      rfl

theorem tells_nil_iff : Tells pieces [] ↔ ∀ piece ∈ pieces, Idle piece := by
  induction pieces with
  | nil => exact ⟨fun _ _ member => absurd member List.not_mem_nil, fun _ => ⟨[], rfl, rfl⟩⟩
  | cons piece pieces ih =>
    rw [List.forall_mem_cons, ← ih]
    constructor
    · intro tells
      obtain ⟨found, read, kept⟩ := tells
      obtain ⟨first, rest, here, onward, rfl⟩ := mapM_eq_ok_cons read
      cases first with
      | none => exact ⟨component_eq_none.1 here, rest, onward, kept⟩
      | some a => cases kept
    · intro both
      exact both.2.idle both.1

/-- The texts of a list of attributes. Each has a slash or more before it, its key may stand between
    blanks and its value is spelled in any way; more slashes may follow the last. -/
inductive Written : List (Attribute × String) → List Char → Prop
  | done (n : Nat) : Written [] (List.replicate n '/')
  | more {a : Attribute} {value : String} {before after text rest : List Char}
      {attributes : List (Attribute × String)} (n : Nat)
      (leading : ∀ c ∈ before, Text.isBlank c = true) (trailing : ∀ c ∈ after, Text.isBlank c = true)
      (spelled : Spells text value.toList) (onward : Written attributes rest) :
      Written ((a, value) :: attributes)
        (List.replicate (n + 1) '/' ++ (before ++ a.shortName.toList ++ after ++ '=' :: text) ++ rest)

def guarded (value : List Char) : List Char :=
  value.flatMap fun c => if c = '/' ∨ c = '\\' then ['\\', c] else [c]

def writtenOut (attributes : List (Attribute × String)) : List Char :=
  attributes.flatMap fun a => '/' :: a.1.shortName.toList ++ '=' :: guarded a.2.toList

def ofAttributes (attributes : List (Attribute × String)) : Except SubjectError Subject :=
  if attributes.filter (·.2 ≠ "") = [] then .error .empty
  else .ok ⟨attributes.filter (·.2 ≠ "")⟩

theorem spells_guarded (value : List Char) : Spells (guarded value) value := by
  induction value with
  | nil => exact .nil
  | cons c cs ih =>
    rw [guarded, List.flatMap_cons, ← guarded]
    by_cases special : c = '/' ∨ c = '\\'
    · rw [if_pos special]
      exact .escaped c ih
    · rw [if_neg special]
      rw [not_or] at special
      exact .plain special.1 special.2 ih

theorem written_writtenOut (attributes : List (Attribute × String)) :
    Written attributes (writtenOut attributes) := by
  induction attributes with
  | nil => exact .done 0
  | cons a attributes ih =>
    have first := Written.more (a := a.1) 0 (List.forall_mem_nil _) (List.forall_mem_nil _)
      (spells_guarded a.2.toList) ih
    simpa [writtenOut] using first

theorem isBlank_of_mem_shortName {c : Char} {a : Attribute} (member : c ∈ a.shortName.toList) :
    Text.isBlank c = false := by
  have all : a.shortName.toList.all (!Text.isBlank ·) = true := by cases a <;> decide
  simpa using List.all_eq_true.1 all c member

theorem padded_plain {a : Attribute} (leading : ∀ c ∈ before, Text.isBlank c = true)
    (trailing : ∀ c ∈ after, Text.isBlank c = true) :
    Spells (before ++ a.shortName.toList ++ after) (before ++ a.shortName.toList ++ after) ∧
      '=' ∉ before ++ a.shortName.toList ++ after ∧
      Text.trim (before ++ a.shortName.toList ++ after) = a.shortName.toList := by
  have absent {c : Char} (solid : Text.isBlank c = false) (apart : c ∉ a.shortName.toList) :
      c ∉ before ++ a.shortName.toList ++ after := by
    intro member
    rcases List.mem_append.1 member with member | member
    · rcases List.mem_append.1 member with member | member
      · simp [leading c member] at solid
      · exact apart member
    · simp [trailing c member] at solid
  obtain ⟨other, inner, apart⟩ := shortName_plain a
  exact ⟨spells_self (absent (by decide) inner) (absent (by decide) other),
    absent (by decide) apart,
    Text.trim_padded (fun _ => isBlank_of_mem_shortName) leading trailing⟩

theorem components_slashes (n : Nat) (rest : List Char) :
    components (List.replicate n '/' ++ rest) = List.replicate n [] ++ components rest := by
  induction n with
  | zero => rfl
  | succ n ih =>
    rw [List.replicate_succ, List.cons_append, components_slash, ih]
    rfl

theorem Tells.idles (n : Nat) (onward : Tells more attributes) :
    Tells (List.replicate n [] ++ more) attributes := by
  induction n with
  | zero => exact onward
  | succ n ih => exact ih.idle (.inl rfl)

theorem tells_of_written (written : Written attributes text) :
    ∃ pieces, components text = [] :: pieces ∧ Tells pieces (attributes.filter (·.2 ≠ "")) := by
  induction written with
  | done n =>
    have cut := components_slashes n []
    have none : Tells [] [] := tells_nil_iff.2 (List.forall_mem_nil _)
    have slashes := none.idles n
    rw [List.append_nil] at cut slashes
    refine ⟨List.replicate n [], ?_, slashes⟩
    rw [cut, components, ← List.replicate_succ', List.replicate_succ]
  | @more a value before after text rest attributes n leading trailing spelled _ ih =>
    obtain ⟨pieces, cut, tells⟩ := ih
    obtain ⟨key, apart, known⟩ := padded_plain (a := a) leading trailing
    have whole := key.append (.plain (by decide) (by decide) spelled : Spells ('=' :: text) _)
    have read := components_spelled whole cut
    refine ⟨_, ?_, (tells.attribute apart known).idles n⟩
    rw [List.append_assoc, components_slashes, read, List.append_nil, List.replicate_succ]
    rfl

theorem parse_of_tells {text : String} (slash : text.toList = '/' :: body)
    (tells : Tells (components body) attributes) :
    parse text = if attributes = [] then .error .empty else .ok ⟨attributes⟩ := by
  obtain ⟨found, read, rfl⟩ := tells
  rw [parse, slash, parseChars_slash, read]
  dsimp only
  split
  · next none => rw [if_pos none]
  · next some => rw [if_neg some]

theorem parse_of_written (written : Written attributes text) (some : attributes ≠ []) :
    parse (String.ofList text) = ofAttributes attributes := by
  obtain ⟨pieces, cut, tells⟩ := tells_of_written written
  obtain ⟨body, rfl⟩ : ∃ body, text = '/' :: body := by
    cases written with
    | done => exact absurd rfl some
    | more n => exact ⟨_, rfl⟩
  rw [components_slash, List.cons.injEq] at cut
  exact parse_of_tells String.toList_ofList (cut.2 ▸ tells)

theorem parse_eq_error_of_slash {text : String} (slash : text.toList = '/' :: body) :
    parse text = .error e ↔ FirstFault (components body) e ∨
      e = .empty ∧ ∀ piece ∈ components body, Idle piece := by
  rw [← mapM_eq_error_iff, ← tells_nil_iff]
  rcases read : (components body).mapM component with e' | found
  · rw [parse, slash, parseChars_slash, Tells, read]
    simp
  · have tells : Tells (components body) (found.filterMap id) := ⟨found, read, rfl⟩
    have only : Tells (components body) [] ↔ found.filterMap id = [] := by
      constructor
      · intro none
        obtain ⟨others, same, left⟩ := none
        cases read.symm.trans same
        exact left
      · intro left
        exact left ▸ tells
    rw [parse_of_tells slash tells, only]
    by_cases none : found.filterMap id = []
    · rw [if_pos none]
      simp only [Except.error.injEq, reduceCtorEq, false_or, none, and_true, eq_comm]
    · rw [if_neg none]
      simp only [reduceCtorEq, false_or, none, and_false]

theorem parse_eq_missingLeadingSlash_iff {text shown : String} :
    parse text = .error (.missingLeadingSlash shown) ↔
      shown = text ∧ text.toList.head? ≠ some '/' := by
  by_cases slash : ∃ body, text.toList = '/' :: body
  · obtain ⟨body, chars⟩ := slash
    have other : ¬ FirstFault (components body) (.missingLeadingSlash shown) := by
      generalize components body = pieces
      intro fault
      induction pieces with
      | nil => cases fault
      | cons piece more ih =>
        cases fault with
        | here fault => cases fault
        | later _ fault => exact ih fault
    rw [parse_eq_error_of_slash chars, chars]
    simp [other]
  · have first : text.toList.head? ≠ some '/' := fun head =>
      slash (List.head?_eq_some_iff.1 head)
    have refused : parse text = .error (.missingLeadingSlash text) := by
      rw [parse]
      unfold parseChars
      split
      · next body chars => exact absurd ⟨body, chars⟩ slash
      · rw [String.ofList_toList]
    rw [refused]
    simp [first, eq_comm]

/-- Subjects are read by their grammar: a list of attributes, however it is written, as those of them
    that have a value, and all else with the fault of the first piece that has one. A text without a
    slash at its start is refused as such, and one that says nothing only if no piece has a fault. -/
theorem parse_grammar :
    (∀ attributes : List (Attribute × String), attributes ≠ [] →
      parse (String.ofList (writtenOut attributes)) = ofAttributes attributes ∧
      ∀ text, Written attributes text →
        parse (String.ofList text) = parse (String.ofList (writtenOut attributes))) ∧
    ∀ text : String,
      (∀ shown, parse text = .error (.missingLeadingSlash shown) ↔
        shown = text ∧ text.toList.head? ≠ some '/') ∧
      ∀ body, text.toList = '/' :: body → ∃ pieces, (∀ others, Cut body others ↔ others = pieces) ∧
        ∀ e, parse text = .error e ↔
          FirstFault pieces e ∨ e = .empty ∧ ∀ piece ∈ pieces, Idle piece := by
  constructor
  · intro attributes some
    have plain := parse_of_written (written_writtenOut attributes) some
    exact ⟨plain, fun text written => (parse_of_written written some).trans plain.symm⟩
  · intro text
    refine ⟨fun shown => parse_eq_missingLeadingSlash_iff, fun body slash => ?_⟩
    exact ⟨components body, fun others => cut_iff.trans eq_comm,
      fun e => parse_eq_error_of_slash slash⟩

/-- Slashes, blanks and backslashes to spare in the text of two attributes, one of them without a
    value, and a text whose second piece has the first fault. -/
theorem parse_grammar_of_spare :
    Written [(.organization, "a/\\="), (.commonName, "")] "// O =\\a\\/\\\\=/CN=/".toList ∧
      parse "// O =\\a\\/\\\\=/CN=/" = .ok ⟨[(.organization, "a/\\=")]⟩ ∧
      parse "/CN=/X=b/O" = .error (.unknownAttribute "X") := by
  have value : Spells "\\a\\/\\\\=".toList "a/\\=".toList :=
    .escaped 'a' (.escaped '/' (.escaped '\\' (.plain (by decide) (by decide) .nil)))
  have blank : ∀ c ∈ [' '], Text.isBlank c = true := List.forall_mem_singleton.2 (by decide)
  have last : Written [(.commonName, "")] "/CN=/".toList :=
    @Written.more .commonName "" [] [] [] _ [] 0 (List.forall_mem_nil _) (List.forall_mem_nil _) .nil
      (.done 1)
  have written : Written [(.organization, "a/\\="), (.commonName, "")]
      "// O =\\a\\/\\\\=/CN=/".toList :=
    @Written.more .organization _ [' '] [' '] _ _ _ 1 blank blank value last
  obtain ⟨plain, spare⟩ := parse_grammar.1 [(.organization, "a/\\="), (.commonName, "")] (by simp)
  have same := (spare _ written).trans plain
  rw [String.ofList_toList] at same
  obtain ⟨pieces, cut, outcome⟩ := (parse_grammar.2 "/CN=/X=b/O").2 "CN=/X=b/O".toList rfl
  have parts := (cut ["CN=".toList, "X=b".toList, "O".toList]).1 (cut_iff.2 rfl)
  have idle : Idle "CN=".toList := .inr ⟨"CN".toList, .commonName, by decide, rfl, rfl⟩
  have sound (e' : SubjectError) : ¬ Faults "CN=".toList e' := fun fault => by
    cases (component_eq_none.2 idle).symm.trans (component_eq_error.2 fault)
  have unknown : Faults "X=b".toList (.unknownAttribute "X") :=
    @Faults.unknown "X".toList "b".toList (by decide) fun a => by cases a <;> decide
  refine ⟨written, same, (outcome _).2 (.inl ?_)⟩
  rw [← parts]
  exact .later sound (.here unknown)

end NetworkCa.Subject
