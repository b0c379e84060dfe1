import NetworkCa.Proofs.Json.Numbers
import NetworkCa.Proofs.Json.Texts

namespace NetworkCa.Json

open Reader

inductive Value where
  | null
  | boolean (value : Bool)
  | number
  | text (value : Option String)
  | array (elements : List Value)
  | object (members : List (Option String × Value))

/-- What a part of a text writes: a value, or what is left of an array or an object. More than
    nothing stands before what is left, or it is all of it. -/
inductive Form where
  | value (v : Value)
  | elements (more : Bool) (vs : List Value)
  | members (more : Bool) (ms : List (Option String × Value))

inductive Lead : Bool → List Char → Prop
  | first {b : List Char} : Blank b → Lead false b
  | comma {b b' : List Char} : Blank b → Blank b' → Lead true (b ++ ',' :: b')

/-- The texts of values, with blanks between any of their tokens. -/
inductive Written : Form → List Char → Prop
  | null : Written (.value .null) ['n', 'u', 'l', 'l']
  | yes : Written (.value (.boolean true)) ['t', 'r', 'u', 'e']
  | no : Written (.value (.boolean false)) ['f', 'a', 'l', 's', 'e']
  | number {s : List Char} : Unsigned s → Written (.value .number) s
  | minus {s : List Char} : Unsigned s → Written (.value .number) ('-' :: s)
  | text {body : List Char} {o : Option (List Char)} :
    Spells body o → Written (.value (.text (o.map String.ofList))) ('"' :: body)
  | array {vs : List Value} {body : List Char} :
    Written (.elements false vs) body → Written (.value (.array vs)) ('[' :: body)
  | object {ms : List (Option String × Value)} {body : List Char} :
    Written (.members false ms) body → Written (.value (.object ms)) ('\x7b' :: body)
  | noElements {more : Bool} {b : List Char} : Blank b → Written (.elements more []) (b ++ [']'])
  | element {more : Bool} {v : Value} {vs : List Value} {l t rest : List Char} :
    Lead more l → Written (.value v) t → Written (.elements true vs) rest →
    Written (.elements more (v :: vs)) (l ++ (t ++ rest))
  | noMembers {more : Bool} {b : List Char} : Blank b → Written (.members more []) (b ++ ['\x7d'])
  | member {more : Bool} {o : Option (List Char)} {v : Value} {ms : List (Option String × Value)}
    {l key b b' t rest : List Char} :
    Lead more l → Spells key o → Blank b → Blank b' → Written (.value v) t →
    Written (.members true ms) rest →
    Written (.members more ((o.map String.ofList, v) :: ms))
      (l ++ '"' :: (key ++ (b ++ ':' :: (b' ++ (t ++ rest)))))

section

variable {v : Value} {vs : List Value} {ms : List (Option String × Value)} {more : Bool}
  {s t l b rest : List Char}

theorem digit_solid {c : Char} (digit : isDigit c = true) :
    isSpace c = false ∧ c ≠ ']' ∧ c ∉ ['n', 't', 'f', '-', '"', '[', '\x7b'] := by
  have inner : isEnd c = false := by
    rw [Bool.eq_false_iff]
    intro ends
    rw [(ends_number ends).1] at digit
    cases digit
  simp only [isEnd, Bool.or_eq_false_iff, beq_eq_false_iff_ne] at inner
  refine ⟨inner.1.1.1, inner.1.2, fun member => ?_⟩
  have none : ∀ c ∈ ['n', 't', 'f', '-', '"', '[', '\x7b'], isDigit c = false := by
    simp [isDigit]
  rw [none c member] at digit
  cases digit

theorem Unsigned.start (unsigned : Unsigned s) : ∃ c more, s = c :: more ∧ isDigit c = true ∧
    isSpace c = false ∧ c ≠ ']' ∧ c ∉ ['n', 't', 'f', '-', '"', '[', '\x7b'] := by
  obtain ⟨isWhole, -, -⟩ := unsigned
  cases isWhole with
  | zero => exact ⟨_, _, rfl, rfl, digit_solid rfl⟩
  | more _ digits =>
    have digit := digits _ List.mem_cons_self
    exact ⟨_, _, rfl, digit, digit_solid digit⟩

theorem Written.start (written : Written (.value v) t) :
    ∃ c more, t = c :: more ∧ isSpace c = false ∧ c ≠ ']' := by
  cases written with
  | number unsigned =>
    obtain ⟨c, more, rfl, -, solid, inner, -⟩ := unsigned.start
    exact ⟨c, more, rfl, solid, inner⟩
  | _ => exact ⟨_, _, rfl, rfl, by decide⟩

theorem Written.length_pos {form : Form} (written : Written form t) : 0 < t.length := by
  cases written with
  | number unsigned =>
    obtain ⟨c, more, rfl, -⟩ := unsigned.start
    exact Nat.succ_pos _
  | noElements _ | noMembers _ | member _ _ _ _ _ _ =>
    simp only [List.length_append, List.length_cons]
    omega
  | element _ value _ =>
    obtain ⟨c, more, rfl, -⟩ := value.start
    simp only [List.length_append, List.length_cons]
    omega
  | _ => exact Nat.succ_pos _

theorem ended_blank_append {c : Char} (blank : Blank b) (ends : isEnd c = true)
    (rest : List Char) : Ended (b ++ c :: rest) := by
  intro d first
  cases b with
  | nil =>
    cases first
    exact ends
  | cons e b =>
    cases first
    simp [isEnd, blank d List.mem_cons_self]

theorem Lead.ended (lead : Lead true l) (rest : List Char) : Ended (l ++ rest) := by
  cases lead with
  | comma blank _ =>
    rw [List.append_assoc]
    exact ended_blank_append blank rfl _

theorem Written.ended_elements (written : Written (.elements true vs) t) (rest : List Char) :
    Ended (t ++ rest) := by
  cases written with
  | noElements blank =>
    rw [List.append_assoc]
    exact ended_blank_append blank rfl _
  | element lead _ _ =>
    rw [List.append_assoc]
    exact lead.ended _

theorem Written.ended_members (written : Written (.members true ms) t) (rest : List Char) :
    Ended (t ++ rest) := by
  cases written with
  | noMembers blank =>
    rw [List.append_assoc]
    exact ended_blank_append blank rfl _
  | member lead _ _ _ _ _ =>
    rw [List.append_assoc]
    exact lead.ended _

end

namespace Reader

variable {v : Value} {vs : List Value} {ms : List (Option String × Value)} {form : Form}
  {more : Bool} {fuel : Nat} {s t l b b' key rest : List Char} {o : Option (List Char)}

theorem reads_word (w rest : List Char) : Reads (word w) (w ++ rest) () rest := by
  induction w with
  | nil => exact .pure () rest
  | cons c w ih =>
    refine (reads_peek c _).bind ?_
    dsimp only
    rw [if_pos rfl]
    exact (reads_drop c _).bind ih

theorem reads_skip_number (blank : Blank b) (unsigned : Unsigned s) (ended : Ended rest) :
    Reads (skipValueWithin (fuel + 1)) (b ++ (s ++ rest)) () rest := by
  have skipped := reads_skipNumber unsigned ended
  obtain ⟨c, more, rfl, digit, solid, -, apart⟩ := unsigned.start
  rw [skipValueWithin]
  refine (reads_peekValue blank solid _).bind ?_
  split
  · next none => cases none
  iterate 7
    · next same =>
      cases same
      exact absurd (by decide) apart
  · next d _ _ _ _ _ _ _ same =>
    cases same
    rw [if_pos digit]
    exact skipped

theorem reads_skipElements_cons (lead : Lead more l)
    (start : ∃ c inner, t = c :: inner ∧ isSpace c = false ∧ c ≠ ']')
    (value : ∀ b, Blank b → Reads (skipValueWithin fuel) (b ++ t) () s)
    (further : Reads (skipElements false fuel) s () rest) :
    Reads (skipElements (!more) (fuel + 1)) (l ++ t) () rest := by
  obtain ⟨c, inner, rfl, solid, unclosed⟩ := start
  rw [skipElements]
  cases lead with
  | first blank =>
    refine (reads_peekValue blank solid _).bind ?_
    split
    · next none => cases none
    · next same => exact absurd (Option.some.inj same) unclosed
    · exact (value [] blank_nil).bind further
  | comma blank blank' =>
    rw [List.append_assoc]
    exact (reads_peekValue blank rfl _).bind ((reads_drop ',' _).bind
      ((value _ blank').bind further))

theorem reads_skipMembers_cons (lead : Lead more l)
    (member : ∀ b, Blank b → Reads (skipMember fuel) (b ++ '"' :: t) () s)
    (further : Reads (skipMembers false fuel) s () rest) :
    Reads (skipMembers (!more) (fuel + 1)) (l ++ '"' :: t) () rest := by
  rw [skipMembers]
  cases lead with
  | first blank =>
    exact (reads_peekValue blank rfl _).bind ((member [] blank_nil).bind further)
  | comma blank blank' =>
    rw [List.append_assoc]
    exact (reads_peekValue blank rfl _).bind ((reads_drop ',' _).bind
      ((member _ blank').bind further))

theorem reads_skipMember (blank : Blank l) (spells : Spells key o) (before : Blank b)
    (value : Reads (skipValueWithin fuel) s () rest) :
    Reads (skipMember (fuel + 1)) (l ++ '"' :: (key ++ (b ++ ':' :: s))) () rest := by
  rw [skipMember]
  exact (reads_peekValue blank rfl _).bind ((reads_drop '"' _).bind
    ((reads_skipText spells _).bind ((reads_colon before _).bind value)))

def Skips : Form → List Char → Prop
  | .value _, t => ∀ b rest fuel, Blank b → Ended rest → 2 * t.length ≤ fuel + 1 →
    Reads (skipValueWithin (fuel + 1)) (b ++ (t ++ rest)) () rest
  | .elements more _, t => ∀ rest fuel, 2 * t.length ≤ fuel + 1 →
    Reads (skipElements (!more) (fuel + 1)) (t ++ rest) () rest
  | .members more _, t => ∀ rest fuel, 2 * t.length ≤ fuel + 1 →
    Reads (skipMembers (!more) (fuel + 1)) (t ++ rest) () rest

theorem skips (written : Written form t) : Skips form t := by
  -- Two steps of fuel for each character: a member and its value take one each.
  induction written with
  | null =>
    intro b rest fuel blank _ _
    rw [skipValueWithin]
    exact (reads_peekValue blank rfl _).bind ((reads_drop 'n' _).bind (reads_word _ rest))
  | yes =>
    intro b rest fuel blank _ _
    rw [skipValueWithin]
    exact (reads_peekValue blank rfl _).bind ((reads_drop 't' _).bind (reads_word _ rest))
  | no =>
    intro b rest fuel blank _ _
    rw [skipValueWithin]
    exact (reads_peekValue blank rfl _).bind ((reads_drop 'f' _).bind (reads_word _ rest))
  | number unsigned =>
    intro b rest fuel blank ended _
    exact reads_skip_number blank unsigned ended
  | minus unsigned =>
    intro b rest fuel blank ended _
    rw [skipValueWithin]
    exact (reads_peekValue blank rfl _).bind
      ((reads_drop '-' _).bind (reads_skipNumber unsigned ended))
  | text spells =>
    intro b rest fuel blank _ _
    rw [skipValueWithin]
    exact (reads_peekValue blank rfl _).bind ((reads_drop '"' _).bind (reads_skipText spells rest))
  | array _ ih =>
    intro b rest fuel blank _ enough
    rw [List.length_cons] at enough
    obtain ⟨fuel, rfl⟩ : ∃ less, fuel = less + 1 := ⟨fuel - 1, by omega⟩
    rw [skipValueWithin]
    exact (reads_peekValue blank rfl _).bind ((reads_drop '[' _).bind (ih rest fuel (by omega)))
  | object _ ih =>
    intro b rest fuel blank _ enough
    rw [List.length_cons] at enough
    obtain ⟨fuel, rfl⟩ : ∃ less, fuel = less + 1 := ⟨fuel - 1, by omega⟩
    rw [skipValueWithin]
    exact (reads_peekValue blank rfl _).bind ((reads_drop '\x7b' _).bind (ih rest fuel (by omega)))
  | noElements blank =>
    intro rest fuel _
    rw [skipElements, List.append_assoc]
    exact (reads_peekValue blank rfl _).bind (reads_drop ']' _)
  | element lead value further ih ih' =>
    intro rest fuel enough
    have pos := value.length_pos
    have pos' := further.length_pos
    rw [List.length_append, List.length_append] at enough
    obtain ⟨fuel, rfl⟩ : ∃ less, fuel = less + 1 := ⟨fuel - 1, by omega⟩
    rw [List.append_assoc, List.append_assoc]
    refine reads_skipElements_cons lead ?_ ?_ (ih' rest fuel (by omega))
    · obtain ⟨c, inner, rfl, start⟩ := value.start
      exact ⟨c, _, rfl, start⟩
    · intro b blank
      exact ih b _ fuel blank (further.ended_elements rest) (by omega)
  | noMembers blank =>
    intro rest fuel _
    rw [skipMembers, List.append_assoc]
    exact (reads_peekValue blank rfl _).bind (reads_drop '\x7d' _)
  | member lead spells blank blank' value further ih ih' =>
    intro rest fuel enough
    have pos := value.length_pos
    have pos' := further.length_pos
    simp only [List.length_append, List.length_cons] at enough
    obtain ⟨fuel, rfl⟩ : ∃ less, fuel = less + 2 := ⟨fuel - 2, by omega⟩
    simp only [List.append_assoc, List.cons_append]
    refine reads_skipMembers_cons lead ?_ (ih' rest (fuel + 1) (by omega))
    intro b before
    exact reads_skipMember before spells blank
      (ih _ _ fuel blank' (further.ended_members rest) (by omega))

theorem reads_skipValue (written : Written (.value v) t) (blank : Blank b) (ended : Ended rest) :
    Reads skipValue (b ++ (t ++ rest)) () rest := by
  refine .budget fun fuel enough => ?_
  simp only [List.length_append] at enough
  obtain ⟨spare, double⟩ : ∃ less, 2 * fuel = less + 1 := ⟨2 * fuel - 1, by omega⟩
  rw [double]
  exact skips written b rest spare blank ended (by omega)

end Reader

end NetworkCa.Json
