import NetworkCa.Json.Printer
import NetworkCa.Proofs.Json.Grammar

namespace NetworkCa.Json.Reader

variable {α : Type} {r : Reader α}

theorem hexDigit?_lowerDigit {n : Nat} (h : n < 16) :
    hexDigit? (Text.Hex.lowerDigit n) = some n := by
  have all : ∀ n < 16, hexDigit? (Text.Hex.lowerDigit n) = some n := by decide
  exact all n h

theorem quad_of_small {n : Nat} (small : n < 256) :
    Quad ['0', '0', Text.Hex.lowerDigit (n / 16), Text.Hex.lowerDigit (n % 16)] n := by
  have quad := Quad.mk (hexDigit?_lowerDigit (n := 0) (by decide))
    (hexDigit?_lowerDigit (n := 0) (by decide)) (hexDigit?_lowerDigit (n := n / 16) (by omega))
    (hexDigit?_lowerDigit (n := n % 16) (by omega))
  have value : 16 * (16 * (16 * 0 + 0) + n / 16) + n % 16 = n := by omega
  rwa [value] at quad

theorem spells_escaped_cons {body s : List Char} (spells : Spells body (some s)) (c : Char) :
    Spells (escaped c ++ body) (some (c :: s)) := by
  unfold escaped
  iterate 7
    split
    · next same =>
      subst same
      exact .escape rfl spells
  split
  · next control =>
    have leading : isLeading c.toNat = false := by
      rw [isLeading, decide_eq_false (by omega), Bool.false_and]
    have trailing : isTrailing c.toNat = false := by
      rw [isTrailing, decide_eq_false (by omega), Bool.false_and]
    have escaped := Spells.unicode (quad_of_small (n := c.toNat) (by omega)) leading trailing spells
    rwa [Char.ofNat_toNat] at escaped
  · next quote backslash _ _ _ _ _ plain => exact .plain quote backslash (Nat.not_lt.1 plain) spells

theorem spells_escaped (s : List Char) : Spells (s.flatMap escaped ++ ['"']) (some s) := by
  induction s with
  | nil => exact .done
  | cons c s ih =>
    rw [List.flatMap_cons, List.append_assoc]
    exact spells_escaped_cons ih c

theorem written_quoted (s : String) : Written (.value (.text (some s))) (quoted s) := by
  have written := Written.text (spells_escaped s.toList)
  rwa [Option.map_some, String.ofList_toList] at written

theorem commaSeparated_cons (part : List Char) (parts : List (List Char)) :
    commaSeparated (part :: parts) = part ++ parts.flatMap (',' :: ·) := by
  induction parts generalizing part with
  | nil => simp [commaSeparated, List.intercalate]
  | cons next parts ih =>
    have tail := ih next
    simp only [commaSeparated, List.intercalate] at tail ⊢
    rw [List.intersperse_cons_cons, List.flatten_cons, List.flatten_cons, tail, List.flatMap_cons]
    rfl

theorem written_member {more : Bool} {v : Value} {ms : List (Option String × Value)}
    {l t rest : List Char} (lead : Lead more l) (key : String) (value : Written (.value v) t)
    (further : Written (.members true ms) rest) :
    Written (.members more ((some key, v) :: ms)) (l ++ (quoted key ++ ':' :: t ++ rest)) := by
  have written := Written.member lead (spells_escaped key.toList) blank_nil blank_nil value further
  rw [Option.map_some, String.ofList_toList] at written
  simpa only [quoted, List.nil_append, List.append_assoc, List.cons_append] using written

variable {members : List (String × Value × List Char)}

theorem written_moreMembers (each : ∀ member ∈ members, Written (.value member.2.1) member.2.2) :
    Written (.members true (members.map fun member => (some member.1, member.2.1)))
      ((members.map fun member => quoted member.1 ++ ':' :: member.2.2).flatMap (',' :: ·)
        ++ ['\x7d']) := by
  induction members with
  | nil => exact .noMembers blank_nil
  | cons member members ih =>
    obtain ⟨value, later⟩ := List.forall_mem_cons.mp each
    have written := written_member (.comma blank_nil blank_nil) member.1 value (ih later)
    simpa only [List.map_cons, List.flatMap_cons, List.append_assoc, List.cons_append,
      List.nil_append] using written

theorem written_object (each : ∀ member ∈ members, Written (.value member.2.1) member.2.2) :
    Written (.value (.object (members.map fun member => (some member.1, member.2.1))))
      (object (members.map fun member => (member.1, member.2.2))) := by
  rw [object, List.cons_append]
  refine .object ?_
  cases members with
  | nil => exact .noMembers blank_nil
  | cons member members =>
    obtain ⟨value, later⟩ := List.forall_mem_cons.mp each
    have written := written_member (.first blank_nil) member.1 value (written_moreMembers later)
    simpa only [List.map_cons, List.map_map, commaSeparated_cons, List.append_assoc,
      List.cons_append, List.nil_append, Function.comp_def] using written

/-- A text that a list may have between its commas: it does not start like the end of the list. -/
def Solid (part : List Char) : Prop := ∃ c more, part = c :: more ∧ isSpace c = false ∧ c ≠ ']'

variable {print : α → List Char} {as : List α}

theorem reads_elements_more (each : ∀ a ∈ as, ∀ rest, Reads r (print a ++ rest) a rest)
    (solid : ∀ a ∈ as, Solid (print a)) (rest : List Char) {fuel : Nat}
    (enough : ((as.map print).flatMap (',' :: ·) ++ ']' :: rest).length ≤ fuel) :
    Reads (elements r false fuel) ((as.map print).flatMap (',' :: ·) ++ ']' :: rest) as
      (']' :: rest) := by
  induction as generalizing fuel with
  | nil =>
    cases fuel with
    | zero => simp at enough
    | succ fuel => exact (reads_moreElements_end blank_nil false rest).bind (.pure [] _)
  | cons a as ih =>
    obtain ⟨c, more, starts, visible, inner⟩ := solid a (by simp)
    have first := each a (by simp) ((as.map print).flatMap (',' :: ·) ++ ']' :: rest)
    rw [List.map_cons, List.flatMap_cons, List.append_assoc, List.cons_append] at enough ⊢
    rw [List.length_cons, List.length_append] at enough
    obtain ⟨fuel, rfl⟩ := Nat.exists_eq_succ_of_ne_zero (Nat.ne_of_gt (Nat.zero_lt_of_lt enough))
    have room : ((as.map print).flatMap (',' :: ·) ++ ']' :: rest).length ≤ fuel := by omega
    have later := ih (fun b hb => each b (by simp [hb])) (fun b hb => solid b (by simp [hb])) room
    rw [starts] at first ⊢
    exact (reads_moreElements_comma blank_nil blank_nil visible inner _).bind
      (first.bind (later.bind (.pure (a :: as) _)))

theorem reads_elements (each : ∀ a ∈ as, ∀ rest, Reads r (print a ++ rest) a rest)
    (solid : ∀ a ∈ as, Solid (print a)) (rest : List Char) {fuel : Nat}
    (enough : (commaSeparated (as.map print) ++ ']' :: rest).length ≤ fuel) :
    Reads (elements r true fuel) (commaSeparated (as.map print) ++ ']' :: rest) as
      (']' :: rest) := by
  cases as with
  | nil =>
    cases fuel with
    | zero => simp [commaSeparated] at enough
    | succ fuel => exact (reads_moreElements_end blank_nil true rest).bind (.pure [] _)
  | cons a as =>
    obtain ⟨c, more, starts, visible, inner⟩ := solid a (by simp)
    have first := each a (by simp) ((as.map print).flatMap (',' :: ·) ++ ']' :: rest)
    rw [List.map_cons, commaSeparated_cons, List.append_assoc] at enough ⊢
    rw [starts] at first enough ⊢
    rw [List.cons_append, List.length_cons, List.length_append] at enough
    obtain ⟨fuel, rfl⟩ := Nat.exists_eq_succ_of_ne_zero (Nat.ne_of_gt (Nat.zero_lt_of_lt enough))
    have laterEach : ∀ b ∈ as, ∀ rest, Reads r (print b ++ rest) b rest :=
      fun b hb => each b (by simp [hb])
    have laterSolid : ∀ b ∈ as, Solid (print b) := fun b hb => solid b (by simp [hb])
    have room : ((as.map print).flatMap (',' :: ·) ++ ']' :: rest).length ≤ fuel := by omega
    have later := reads_elements_more laterEach laterSolid rest room
    exact (reads_moreElements_first blank_nil visible inner _).bind
      (first.bind (later.bind (.pure (a :: as) _)))

theorem reads_list (each : ∀ a ∈ as, ∀ rest, Reads r (print a ++ rest) a rest)
    (solid : ∀ a ∈ as, Solid (print a)) (rest : List Char) :
    Reads (list r) (array (as.map print) ++ rest) as rest := by
  have shape : array (as.map print) ++ rest =
      '[' :: (commaSeparated (as.map print) ++ ']' :: rest) := by
    simp only [array, List.append_assoc, List.cons_append, List.nil_append]
  rw [shape]
  refine (reads_valueStart blank_nil rfl _).bind (Reads.located ?_)
  refine Reads.enclosed ((reads_drop '[' _).bind ?_) (reads_listEnd blank_nil rest)
  exact .budget fun fuel enough => reads_elements each solid rest (by omega)

end NetworkCa.Json.Reader
