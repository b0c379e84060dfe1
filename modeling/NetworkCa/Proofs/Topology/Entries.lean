import NetworkCa.Proofs.Json.Decoding
import NetworkCa.Topology.Json

namespace NetworkCa

open Json Json.Reader

namespace Identity

def role? (v : Value) : Option Role := v.named? Role.ofTag?

def dir? (v : Value) : Option Path := v.text?.map Path.ofString

/-- What is kept of a member: that of the value, if the member was not there before. -/
def once? {α : Type} (read o : Option α) : Option α := if read.isSome then none else o

def Members.put (m : Members) (key : String) (v : Value) : Option Members :=
  if key = "role" then (once? m.role (role? v)).map fun role => { m with role := some role }
  else if key = "dir" then (once? m.dir (dir? v)).map fun dir => { m with dir := some dir }
  else if key = "name" then (once? m.name v.nullable?).map fun name => { m with name := some name }
  else if key = "ca_link" then
    (once? m.caLink v.nullable?).map fun caLink => { m with caLink := some caLink }
  else some m

def Members.step (m : Members) (member : Option String × Value) : Option Members :=
  member.1.bind fun key => m.put key member.2

def Members.identity? (m : Members) : Option Identity :=
  match m.role, m.dir with
  | some role, some dir => some (make role dir m.name.join m.caLink.join)
  | _, _ => none

def place? {α : Type} (read : Value → Option α) : Option Value → Option (Option α)
  | none => some none
  | some v => (read v).map some

def ofPlaces? (vs : List Value) : Option Identity :=
  (vs[0]?.bind role?).bind fun role =>
  (vs[1]?.bind dir?).bind fun dir =>
  (place? Value.nullable? vs[2]?).bind fun name =>
  (place? Value.nullable? vs[3]?).map fun caLink => make role dir name.join caLink.join

def ofList? (vs : List Value) : Option Identity :=
  if vs.length ≤ 4 then ofPlaces? vs else none

def ofValue? : Value → Option Identity
  | .object ms => (ms.foldlM Members.step {}).bind Members.identity?
  | .array vs => ofList? vs
  | _ => none

section

variable {α : Type} {v : Value} {vs : List Value} {ms : List (Option String × Value)}
  {m : Members} {more : Bool} {fuel : Nat} {t b b' rest : List Char} {key : String}

theorem answers_role (written : Written (.value v) t) (blank : Blank b) (rest : List Char) :
    Answers Role.reader (b ++ (t ++ rest)) rest (role? v) :=
  answers_variant written blank rest

theorem answers_dir (written : Written (.value v) t) (blank : Blank b) (rest : List Char) :
    Answers dirReader (b ++ (t ++ rest)) rest (dir? v) :=
  (answers_textValue written blank rest).map Path.ofString

theorem answers_name (written : Written (.value v) t) (blank : Blank b) (rest : List Char) :
    Answers nameReader (b ++ (t ++ rest)) rest v.nullable? :=
  answers_nullable written blank rest

theorem answers_once {r : Reader α} {input : List Char} {o : Option α} (read : Option α)
    (blank : Blank b) (h : Answers r input rest o) :
    Answers (once key read r) (b ++ ':' :: input) rest (once? read o) := by
  cases read with
  | some a => exact Fails.bind ((never_failSomewhere _).fails _)
  | none => exact .after (reads_colon blank input) h

theorem answers_member (written : Written (.value v) t) (blank : Blank b) (blank' : Blank b')
    (ended : Ended rest) :
    Answers (member key m) (b ++ ':' :: (b' ++ (t ++ rest))) rest (m.put key v) := by
  unfold member Members.put
  split
  · exact (answers_once m.role blank (answers_role written blank' rest)).map _
  split
  · exact (answers_once m.dir blank (answers_dir written blank' rest)).map _
  split
  · exact (answers_once m.name blank (answers_name written blank' rest)).map _
  split
  · exact (answers_once m.caLink blank (answers_name written blank' rest)).map _
  · exact (reads_colon blank _).bind
      ((reads_skipValue written blank' ended).bind (.pure m rest))

theorem answers_members (written : Written (.members more ms) t) (rest : List Char)
    (enough : t.length ≤ fuel) :
    Answers (members m (!more) fuel) (t ++ rest) ('\x7d' :: rest) (ms.foldlM Members.step m) := by
  induction ms generalizing m more t fuel with
  | nil =>
    cases written with
    | noMembers blank =>
      rw [List.length_append, List.length_singleton] at enough
      obtain ⟨fuel, rfl⟩ : ∃ less, fuel = less + 1 := ⟨fuel - 1, by omega⟩
      rw [List.append_assoc]
      exact (reads_moreKeys_end blank _ rest).bind (.pure m _)
  | cons member ms ih =>
    cases written with
    | @member _ _ _ _ _ _ _ _ _ behind' lead spells before behind value further =>
      simp only [List.append_assoc, List.cons_append, List.length_append, List.length_cons]
        at enough ⊢
      obtain ⟨fuel, rfl⟩ : ∃ less, fuel = less + 1 := ⟨fuel - 1, by omega⟩
      have enough' : behind'.length ≤ fuel := by omega
      refine .after (reads_moreKeys lead _) ?_
      rw [List.foldlM_cons, Members.step, Option.bind_eq_bind, Option.bind_assoc]
      exact (answers_text spells _).bind fun key _ =>
        (answers_member value before behind (further.ended_members _)).bind fun _ _ =>
          ih further enough'

theorem answers_ofMembers (m : Members) (input : List Char) :
    Answers (ofMembers m) input input m.identity? := by
  unfold ofMembers Members.identity?
  cases m.role with
  | none => exact (never_failSomewhere _).fails input
  | some role =>
    cases m.dir with
    | none => exact (never_failSomewhere _).fails input
    | some dir => exact Reads.pure _ input

theorem answers_objectBody (written : Written (.members false ms) t) (rest : List Char) :
    Answers objectBody ('\x7b' :: (t ++ rest)) ('\x7d' :: rest)
      ((ms.foldlM Members.step {}).bind Members.identity?) := by
  refine .after (reads_drop '\x7b' _) (.budget fun fuel enough => ?_)
  exact (answers_members written rest (length_le_budget enough)).bind
    fun m _ => answers_ofMembers m _

variable {r : Reader α} {read : Value → Option α}

theorem answers_place
    (each : ∀ v t rest, Written (.value v) t → Answers r (t ++ rest) rest (read v))
    (written : Written (.elements more vs) t) :
    ∃ t', Written (.elements true vs.tail) t' ∧
      ∀ rest, Answers (place (!more) r) (t ++ rest) (t' ++ rest) (place? read vs.head?) := by
  cases written with
  | noElements blank =>
    refine ⟨_, .noElements blank_nil, fun rest => ?_⟩
    rw [List.append_assoc]
    exact (reads_moreElements_end blank _ rest).bind (.pure none _)
  | @element _ v _ l t further lead value more =>
    refine ⟨further, more, fun rest => ?_⟩
    have first := each v t (further ++ rest) value
    obtain ⟨c, inner, rfl, solid, unclosed⟩ := value.start
    rw [List.append_assoc, List.append_assoc]
    exact .after (reads_moreElements lead solid unclosed _) (first.map some)

theorem answers_neededPlace (index : Nat) (start : decide (index = 0) = !more)
    (each : ∀ v t rest, Written (.value v) t → Answers r (t ++ rest) rest (read v))
    (written : Written (.elements more vs) t) :
    ∃ t', Written (.elements true vs.tail) t' ∧
      ∀ rest, Answers (neededPlace index r) (t ++ rest) (t' ++ rest) (vs.head?.bind read) := by
  obtain ⟨t', written', answers⟩ := answers_place each written
  have given (o : Option Value) : (place? read o).bind id = o.bind read := by
    cases o with
    | none => rfl
    | some v => cases h : read v <;> simp [place?, h]
  refine ⟨t', written', fun rest => ?_⟩
  rw [neededPlace, start, ← given]
  refine (answers rest).bind fun o _ => ?_
  cases o with
  | none => exact (never_failSomewhere _).fails _
  | some a => exact Reads.pure a _

theorem answers_listBody (written : Written (.elements false vs) t) :
    ∃ t', Written (.elements true (vs.drop 4)) t' ∧
      ∀ rest, Answers listBody ('[' :: (t ++ rest)) (t' ++ rest) (ofPlaces? vs) := by
  have role (v t rest) (h : Written (.value v) t) := answers_role h blank_nil rest
  have dir (v t rest) (h : Written (.value v) t) := answers_dir h blank_nil rest
  have name (v t rest) (h : Written (.value v) t) := answers_name h blank_nil rest
  obtain ⟨t₁, written₁, first⟩ := answers_neededPlace 0 rfl role written
  obtain ⟨t₂, written₂, second⟩ := answers_neededPlace 1 rfl dir written₁
  obtain ⟨t₃, written₃, third⟩ := answers_place name written₂
  obtain ⟨t₄, written₄, fourth⟩ := answers_place name written₃
  simp only [← List.drop_one, List.drop_drop, List.head?_eq_getElem?, List.getElem?_drop]
    at written₄ first second third fourth
  refine ⟨t₄, written₄, fun rest => .after (reads_drop '[' _) ?_⟩
  exact (first rest).bind fun role _ => (second rest).bind fun dir _ =>
    (third rest).bind fun name _ => (fourth rest).map fun caLink => _

theorem fails_listEnd (written : Written (.elements true vs) t) (more : vs ≠ [])
    (rest : List Char) : Fails listEnd (t ++ rest) := by
  cases written with
  | noElements _ => exact absurd rfl more
  | element lead value _ =>
    cases lead with
    | comma blank _ =>
      simp only [List.append_assoc, List.cons_append]
      refine (reads_peekValue blank rfl _).fails ((reads_drop ',' _).fails ?_)
      refine (never_bind fun o => ?_).fails _
      split <;> exact never_failAhead _

theorem answers_listEntry (written : Written (.elements false vs) t) (rest : List Char) :
    Answers (located (enclosed listBody listEnd)) ('[' :: (t ++ rest)) rest (ofList? vs) := by
  obtain ⟨t', behind, answers⟩ := answers_listBody written
  refine .located ?_
  unfold ofList?
  split
  · next short =>
    rw [List.drop_eq_nil_of_le short] at behind
    cases behind with
    | noElements blank =>
      refine (answers rest).enclosed ?_
      rw [List.append_assoc]
      exact reads_listEnd blank rest
  · next long =>
    have more : vs.drop 4 ≠ [] := by simpa using long
    exact (answers rest).enclosedFails (fails_listEnd behind more rest)

theorem answers_reader (written : Written (.value v) t) (blank : Blank b) (rest : List Char) :
    Answers reader (b ++ (t ++ rest)) rest (ofValue? v) := by
  cases written with
  | object members =>
    refine .after (reads_valueStart blank rfl _) ?_
    exact ((answers_objectBody members rest).enclosed (reads_objectEnd blank_nil rest)).located
  | array elements =>
    exact .after (reads_valueStart blank rfl _) (answers_listEntry elements rest)
  | number unsigned =>
    obtain ⟨c, more, rfl, -, solid, -, apart⟩ := unsigned.start
    refine (reads_valueStart blank solid _).fails ?_
    split
    · exact absurd (by decide) apart
    · exact absurd (by decide) apart
    · exact (never_wrongType _).fails _
  | _ => exact (reads_valueStart blank rfl _).fails ((never_wrongType _).fails _)

end

end Identity

namespace Topology

variable {text : String} {vs : List Value} {t b b' : List Char}

theorem answers_identities (written : Written (.value (.array vs)) t) (blank : Blank b)
    (rest : List Char) :
    Answers (list Identity.reader) (b ++ (t ++ rest)) rest (vs.mapM Identity.ofValue?) := by
  cases written with
  | array elements =>
    exact answers_list (fun v t rest written _ => Identity.answers_reader written blank_nil rest)
      elements blank rest

/-- A topology is there when every element of the array is an identity, and is then all of them. -/
theorem parse_written (written : Written (.value (.array vs)) t) (blank : Blank b)
    (blank' : Blank b') (spelled : text.toList = b ++ (t ++ b')) :
    (∀ is, vs.mapM Identity.ofValue? = some is → parse text = .ok ⟨is⟩) ∧
    (vs.mapM Identity.ofValue? = none → ∃ failure, parse text = .error (.invalid failure)) := by
  have answers := answers_identities written blank b'
  rw [← spelled] at answers
  constructor
  · intro is all
    rw [all] at answers
    rw [parse, run_of_reads_before answers blank']
  · intro missing
    rw [missing] at answers
    obtain ⟨failure, failed⟩ := run_of_fails answers
    exact ⟨failure, by rw [parse, failed]⟩

end Topology

end NetworkCa
