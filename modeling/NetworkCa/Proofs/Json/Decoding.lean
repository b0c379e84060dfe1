import NetworkCa.Proofs.Json.Grammar

namespace NetworkCa.Json

def Value.text? : Value → Option String
  | .text o => o
  | _ => none

/-- What a value is the name of: as a text, or as the only key of an object that holds null. -/
def Value.named? {α : Type} (find : String → Option α) : Value → Option α
  | .text o => o.bind find
  | .object [(key, .null)] => key.bind find
  | _ => none

def Value.nullable? : Value → Option (Option String)
  | .null => some none
  | .text o => o.map some
  | _ => none

namespace Reader

variable {α β : Type} {v : Value} {vs : List Value} {ms : List (Option String × Value)}
  {more : Bool} {fuel : Nat} {s t l b rest : List Char} {expected : String}

theorem never_wrongType (expected : String) : Never (wrongType expected : Reader α) := by
  have ends (found : Found) :
      Never (located (failSomewhere (.wrongType found expected)) : Reader α) :=
    never_located (never_failSomewhere _)
  refine never_bind fun c => ?_
  dsimp only
  split
  · exact never_bind fun _ => never_bind fun _ => ends _
  · exact never_bind fun _ => never_bind fun _ => ends _
  · exact never_bind fun _ => never_bind fun _ => ends _
  · exact never_bind fun _ => never_bind fun _ => ends _
  · exact never_bind fun _ => never_bind fun _ => ends _
  · exact ends _
  · exact ends _
  · split
    · exact never_bind fun _ => ends _
    · exact never_failAhead _
  · exact never_failAhead _

theorem fails_unless {c d : Char} {r : Reader α} (blank : Blank b) (solid : isSpace c = false)
    (other : c ≠ d) (rest : List Char) :
    Fails (valueStart >>= fun c => if c = d then r else wrongType expected) (b ++ c :: rest) := by
  refine (reads_valueStart blank solid rest).fails ?_
  rw [if_neg other]
  exact (never_wrongType expected).fails _

theorem answers_textValue (written : Written (.value v) t) (blank : Blank b) (rest : List Char) :
    Answers (textValue expected) (b ++ (t ++ rest)) rest v.text? := by
  cases written with
  | text spells =>
    exact .after (reads_valueStart blank rfl _)
      (.after (reads_drop '"' _) (answers_text spells rest))
  | number unsigned =>
    obtain ⟨c, more, rfl, -, solid, -, apart⟩ := unsigned.start
    exact fails_unless blank solid (by rintro rfl; exact apart (by decide)) _
  | _ => exact fails_unless blank rfl (by decide) _

/-- Where a value may be null, anything that does not start like null is read as without it. -/
theorem answers_optional {c : Char} {r : Reader α} {o : Option α} (blank : Blank b)
    (solid : isSpace c = false) (other : c ≠ 'n') (h : Answers r (c :: s) rest o) :
    Answers (optional r) (b ++ c :: s) rest (o.map some) := by
  refine .after (reads_peekValue blank solid _) ?_
  rw [if_neg (by simpa using other)]
  exact h.map some

theorem answers_nullable (written : Written (.value v) t) (blank : Blank b) (rest : List Char) :
    Answers (optional (textValue expected)) (b ++ (t ++ rest)) rest v.nullable? := by
  have whole : Answers (textValue expected) (t ++ rest) rest v.text? :=
    answers_textValue written blank_nil rest
  cases written with
  | null =>
    refine (reads_peekValue blank rfl _).bind ?_
    rw [if_pos rfl]
    exact (reads_drop 'n' _).bind ((reads_word ['u', 'l', 'l'] rest).bind (.pure none rest))
  | text spells => exact answers_optional blank rfl (by decide) whole
  | number unsigned =>
    obtain ⟨c, more, rfl, -, solid, -, apart⟩ := unsigned.start
    exact answers_optional blank solid (by rintro rfl; exact apart (by decide)) whole
  | _ => exact answers_optional blank rfl (by decide) whole

theorem reads_unitValue (blank : Blank b) (rest : List Char) :
    Reads unitValue (b ++ 'n' :: 'u' :: 'l' :: 'l' :: rest) () rest := by
  refine (reads_valueStart blank rfl _).bind ?_
  rw [if_pos rfl]
  exact (reads_drop 'n' _).bind (reads_word ['u', 'l', 'l'] rest)

theorem fails_unitValue (written : Written (.value v) t) (blank : Blank b) (other : v ≠ .null)
    (rest : List Char) : Fails unitValue (b ++ (t ++ rest)) := by
  cases written with
  | null => exact absurd rfl other
  | number unsigned =>
    obtain ⟨c, more, rfl, -, solid, -, apart⟩ := unsigned.start
    exact fails_unless blank solid (by rintro rfl; exact apart (by decide)) _
  | _ => exact fails_unless blank rfl (by decide) _

def lookedUp (known : List String) (find : String → Option α) (name : String) : Reader α :=
  match find name with
  | some a => return a
  | none => located (failSomewhere (.unknownVariant name known))

theorem answers_lookedUp (known : List String) (find : String → Option α) (name : String)
    (input : List Char) : Answers (lookedUp known find name) input input (find name) := by
  unfold lookedUp
  cases find name with
  | none => exact (never_located (never_failSomewhere _)).fails input
  | some a => exact Reads.pure a input

def closing (a : α) : Reader α := do
  colon
  unitValue
  match ← peekValue with
  | some '\x7d' => drop; return a
  | some _ => failHere .expectedValue
  | none => failHere .endOfObject

theorem reads_closing {b₁ b₂ b₃ : List Char} (before : Blank b₁) (behind : Blank b₂)
    (last : Blank b₃) (a : α) (rest : List Char) :
    Reads (closing a)
      (b₁ ++ ':' :: (b₂ ++ 'n' :: 'u' :: 'l' :: 'l' :: (b₃ ++ '\x7d' :: rest))) a rest :=
  (reads_colon before _).bind ((reads_unitValue behind _).bind
    ((reads_peekValue last rfl rest).bind ((reads_drop '\x7d' rest).bind (.pure a rest))))

theorem fails_closing {b₁ b₂ further : List Char} (before : Blank b₁) (behind : Blank b₂)
    (written : Written (.value v) t) (more : Written (.members true ms) further)
    (others : ¬(v = .null ∧ ms = [])) (a : α) (rest : List Char) :
    Fails (closing a) (b₁ ++ ':' :: (b₂ ++ (t ++ (further ++ rest)))) := by
  refine (reads_colon before _).fails ?_
  by_cases null : v = .null
  · subst null
    cases written with
    | null =>
    refine (reads_unitValue behind _).fails ?_
    cases more with
    | noMembers _ => exact absurd ⟨rfl, rfl⟩ others
    | member lead _ _ _ _ _ =>
      cases lead with
      | comma blank _ =>
        rw [List.append_assoc, List.append_assoc]
        exact (reads_peekValue blank rfl _).fails ((never_failHere _).fails _)
  · exact Fails.bind (fails_unitValue written behind null _)

theorem answers_variant {known : List String} {find : String → Option α}
    (written : Written (.value v) t) (blank : Blank b) (rest : List Char) :
    Answers (variant known find) (b ++ (t ++ rest)) rest (v.named? find) := by
  have lookup := answers_lookedUp known find
  cases written with
  | text spells =>
    exact .after (reads_peekValue blank rfl _) (.after (reads_drop '"' _)
      ((answers_text spells rest).bind fun name _ => lookup name rest))
  | object members =>
    rw [List.cons_append]
    refine .after (reads_peekValue blank rfl _) (.after (reads_drop '\x7b' _) ?_)
    cases members with
    | noMembers blank' =>
      rw [List.append_assoc]
      exact (reads_peekValue blank' rfl _).fails (Fails.bind ((never_failAhead _).fails _))
    | @member _ o v ms l key b₁ b₂ t' rest' lead spells before behind value further =>
      obtain ⟨leading⟩ := lead
      simp only [List.append_assoc, List.cons_append]
      refine .after (reads_peekValue leading rfl _) (.after (reads_drop '"' _) ?_)
      have key := answers_text spells (b₁ ++ ':' :: (b₂ ++ (t' ++ (rest' ++ rest))))
      -- The key is looked up in either case, and only then is there anything else to fail.
      by_cases only : v = .null ∧ ms = []
      · obtain ⟨rfl, rfl⟩ := only
        cases value with
        | null =>
        cases further with
        | noMembers last =>
        rw [List.append_assoc] at key ⊢
        have step (name : String) := (lookup name _).bind fun a _ =>
          (show Answers (closing a) _ rest (some a) from reads_closing before behind last a rest)
        simp only [Option.bind_fun_some] at step
        exact key.bind fun name _ => step name
      · have unnamed : (Value.object ((o.map String.ofList, v) :: ms)).named? find = none := by
          cases v <;> cases ms <;> first | rfl | exact absurd ⟨rfl, rfl⟩ only
        rw [unnamed]
        exact key.fails fun name => (lookup name _).fails fun a =>
          fails_closing before behind value further only a rest
  | number unsigned =>
    obtain ⟨c, more, rfl, -, solid, -, apart⟩ := unsigned.start
    refine (reads_peekValue blank solid _).fails ?_
    split
    · next none => cases none
    · next same =>
      cases same
      exact absurd (by decide) apart
    · next same =>
      cases same
      exact absurd (by decide) apart
    · exact (never_failAhead _).fails _
  | _ =>
    exact (reads_peekValue blank rfl _).fails ((never_failAhead _).fails _)

theorem reads_moreElements {c : Char} (lead : Lead more l) (solid : isSpace c = false)
    (inner : c ≠ ']') (rest : List Char) :
    Reads (moreElements (!more)) (l ++ c :: rest) true (c :: rest) := by
  cases lead with
  | first blank => exact reads_moreElements_first blank solid inner rest
  | comma blank blank' =>
    rw [List.append_assoc]
    exact reads_moreElements_comma blank blank' solid inner rest

theorem reads_moreKeys (lead : Lead more l) (rest : List Char) :
    Reads (moreKeys (!more)) (l ++ '"' :: rest) true rest := by
  cases lead with
  | first blank => exact reads_moreKeys_first blank rest
  | comma blank blank' =>
    rw [List.append_assoc]
    exact reads_moreKeys_comma blank blank' rest

variable {r : Reader α} {read : Value → Option α}

theorem answers_elements
    (each : ∀ v t rest, Written (.value v) t → Ended rest → Answers r (t ++ rest) rest (read v))
    (written : Written (.elements more vs) t) (rest : List Char) (enough : t.length ≤ fuel) :
    Answers (elements r (!more) fuel) (t ++ rest) (']' :: rest) (vs.mapM read) := by
  induction vs generalizing more t fuel with
  | nil =>
    cases written with
    | noElements blank =>
      rw [List.length_append, List.length_singleton] at enough
      obtain ⟨fuel, rfl⟩ : ∃ less, fuel = less + 1 := ⟨fuel - 1, by omega⟩
      rw [List.append_assoc]
      exact (reads_moreElements_end blank _ rest).bind (.pure [] _)
  | cons v vs ih =>
    cases written with
    | @element _ _ _ l t further lead value more =>
      have shape : (v :: vs).mapM read =
          (read v).bind fun a => (vs.mapM read).map (a :: ·) := by
        rw [List.mapM_cons]
        cases read v <;> cases vs.mapM read <;> rfl
      have first := each v t (further ++ rest) value (more.ended_elements rest)
      have pos := value.length_pos
      rw [List.length_append, List.length_append] at enough
      obtain ⟨fuel, rfl⟩ : ∃ less, fuel = less + 1 := ⟨fuel - 1, by omega⟩
      have enough' : further.length ≤ fuel := by omega
      obtain ⟨c, inner, rfl, solid, unclosed⟩ := value.start
      rw [shape, List.append_assoc, List.append_assoc]
      exact .after (reads_moreElements lead solid unclosed _)
        (first.bind fun a _ => (ih more enough').map (a :: ·))

theorem answers_list
    (each : ∀ v t rest, Written (.value v) t → Ended rest → Answers r (t ++ rest) rest (read v))
    (written : Written (.elements false vs) t) (blank : Blank b) (rest : List Char) :
    Answers (list r) (b ++ '[' :: (t ++ rest)) rest (vs.mapM read) := by
  refine .after (reads_valueStart blank rfl _) ?_
  rw [if_pos rfl]
  refine .located (.enclosed (.after (reads_drop '[' _) ?_) (reads_listEnd blank_nil rest))
  exact .budget fun fuel enough => answers_elements each written rest (length_le_budget enough)

end Reader

end NetworkCa.Json
