import NetworkCa.Proofs.Json.Answers

namespace NetworkCa.Json

open Reader

def Digits (s : List Char) : Prop := ∀ c ∈ s, isDigit c = true

inductive Whole : List Char → Prop
  | zero : Whole ['0']
  | more {c : Char} {s : List Char} : c ≠ '0' → Digits (c :: s) → Whole (c :: s)

inductive Fraction : List Char → Prop
  | none : Fraction []
  | some {c : Char} {s : List Char} : Digits (c :: s) → Fraction ('.' :: c :: s)

inductive Exponent : List Char → Prop
  | none : Exponent []
  | plain {e c : Char} {s : List Char} : e = 'e' ∨ e = 'E' → Digits (c :: s) →
    Exponent (e :: c :: s)
  | signed {e sign c : Char} {s : List Char} : e = 'e' ∨ e = 'E' → sign = '+' ∨ sign = '-' →
    Digits (c :: s) → Exponent (e :: sign :: c :: s)

inductive Unsigned : List Char → Prop
  | mk {whole fraction exponent : List Char} :
    Whole whole → Fraction fraction → Exponent exponent → Unsigned (whole ++ (fraction ++ exponent))

def isEnd (c : Char) : Bool := isSpace c || c == ',' || c == ']' || c == '\x7d'

def Ended (rest : List Char) : Prop := ∀ c, rest.head? = some c → isEnd c = true

namespace Reader

variable {c : Char} {fuel : Nat} {s input rest whole fraction exponent : List Char}

theorem ends_number (h : isEnd c = true) :
    isDigit c = false ∧ c ≠ '.' ∧ isExponentMark (some c) = false := by
  have cases : c = ' ' ∨ c = '\n' ∨ c = '\t' ∨ c = '\r' ∨ c = ',' ∨ c = ']' ∨ c = '\x7d' := by
    simpa [isEnd, isSpace, or_assoc] using h
  rcases cases with rfl | rfl | rfl | rfl | rfl | rfl | rfl <;> decide

def Stops (input : List Char) : Prop := ∀ c, input.head? = some c → isDigit c = false

theorem reads_peek_any (input : List Char) : Reads peek input input.head? input :=
  ⟨Nat.le_refl _, fun p _ _ => ⟨p, rfl⟩⟩

theorem reads_peekDigit (digit : isDigit c = true) (rest : List Char) :
    Reads peekDigit (c :: rest) (some (digitValue c)) (c :: rest) := by
  refine (reads_peek c rest).bind ?_
  dsimp only
  rw [if_pos digit]
  exact .pure _ _

theorem reads_peekDigit_none (stops : Stops input) : Reads peekDigit input none input := by
  refine (reads_peek_any input).bind ?_
  cases input with
  | nil => exact .pure _ _
  | cons c rest =>
    have other := stops c rfl
    dsimp only [List.head?_cons]
    rw [if_neg (by simp [other])]
    exact .pure _ _

theorem reads_skipDigits (digits : Digits s) (stops : Stops rest) (enough : s.length ≤ fuel) :
    Reads (skipDigits fuel) (s ++ rest) () rest := by
  induction s generalizing fuel with
  | nil =>
    cases fuel with
    | zero => exact .pure () rest
    | succ fuel => exact (reads_peekDigit_none stops).bind (.pure () rest)
  | cons c s ih =>
    rw [List.length_cons] at enough
    obtain ⟨fuel, rfl⟩ : ∃ less, fuel = less + 1 := ⟨fuel - 1, by omega⟩
    exact (reads_peekDigit (digits c List.mem_cons_self) _).bind ((reads_drop c _).bind
      (ih (fun d hd => digits d (List.mem_cons_of_mem _ hd)) (by omega)))

theorem reads_skipExponent {e : Char} (exponent : Exponent (e :: s)) (stops : Stops rest) :
    Reads skipExponent (e :: s ++ rest) () rest := by
  have digitsOnly {c : Char} {s : List Char} (digits : Digits (c :: s))
      {f : Option Char → Reader Unit}
      (step : f (some c) = if isDigit c then budget >>= skipDigits else failAhead .badNumber) :
      Reads (peek >>= f) (c :: s ++ rest) () rest := by
    refine (reads_peek c _).bind ?_
    rw [step, if_pos (digits c List.mem_cons_self)]
    exact .budget fun _ enough => reads_skipDigits digits stops (length_le_budget enough)
  cases exponent with
  | @plain _ c s mark digits =>
    refine (reads_drop e _).bind ((reads_peek c _).bind ?_)
    have digit := digits c List.mem_cons_self
    dsimp only
    split
    · next same =>
      cases same
      exact absurd digit (by decide)
    · next same =>
      cases same
      exact absurd digit (by decide)
    · exact digitsOnly digits rfl
  | signed mark sign digits =>
    refine (reads_drop e _).bind ((reads_peek _ _).bind ?_)
    rcases sign with rfl | rfl
    · exact (reads_drop _ _).bind (digitsOnly digits rfl)
    · exact (reads_drop _ _).bind (digitsOnly digits rfl)

def skipTail : Reader Unit := do
  let c ← peek
  if c = some '.' then
    drop
    if (← peekDigit).isNone then failAhead .badNumber
    skipDigits (← budget)
    if isExponentMark (← peek) then skipExponent
  else if isExponentMark c then skipExponent

theorem Stops.of_ended (ended : Ended rest) : Stops rest :=
  fun c first => (ends_number (ended c first)).1

theorem stops_exponent (isExponent : Exponent exponent) (ended : Ended rest) :
    Stops (exponent ++ rest) := by
  intro c first
  cases isExponent with
  | none => exact Stops.of_ended ended c first
  | plain mark _ | signed mark _ _ =>
    cases first
    rcases mark with rfl | rfl <;> decide

theorem stops_fraction (isFraction : Fraction fraction) (isExponent : Exponent exponent)
    (ended : Ended rest) : Stops (fraction ++ (exponent ++ rest)) := by
  intro c first
  cases isFraction with
  | none => exact stops_exponent isExponent ended c first
  | some _ =>
    cases first
    decide

theorem marks_exponent (mark : c = 'e' ∨ c = 'E') :
    isExponentMark (some c) = true ∧ some c ≠ some '.' := by
  rcases mark with rfl | rfl <;> decide

theorem reads_exponentTail (isExponent : Exponent exponent) (ended : Ended rest) :
    (exponent ++ rest).head? ≠ some '.' ∧
      Reads (if isExponentMark (exponent ++ rest).head? then skipExponent else pure ())
        (exponent ++ rest) () rest := by
  cases isExponent with
  | none =>
    rw [List.nil_append]
    rcases first : rest.head? with _ | c
    · exact ⟨nofun, .pure () rest⟩
    · obtain ⟨-, point, mark⟩ := ends_number (ended c first)
      rw [mark, if_neg (by simp)]
      exact ⟨by simpa using point, .pure () rest⟩
  | plain mark digits =>
    obtain ⟨marked, apart⟩ := marks_exponent mark
    rw [List.cons_append, List.head?_cons, marked, if_pos rfl]
    exact ⟨apart, reads_skipExponent (.plain mark digits) (.of_ended ended)⟩
  | signed mark sign digits =>
    obtain ⟨marked, apart⟩ := marks_exponent mark
    rw [List.cons_append, List.head?_cons, marked, if_pos rfl]
    exact ⟨apart, reads_skipExponent (.signed mark sign digits) (.of_ended ended)⟩

theorem reads_skipTail (isFraction : Fraction fraction) (isExponent : Exponent exponent)
    (ended : Ended rest) : Reads skipTail (fraction ++ (exponent ++ rest)) () rest := by
  obtain ⟨apart, further⟩ := reads_exponentTail isExponent ended
  refine (reads_peek_any _).bind ?_
  cases isFraction with
  | none =>
    rw [List.nil_append, if_neg apart]
    exact further
  | some digits =>
    rw [List.cons_append, List.head?_cons, if_pos rfl]
    refine (reads_drop '.' _).bind
      ((reads_peekDigit (digits _ List.mem_cons_self) _).bind ?_)
    rw [if_neg (by simp)]
    exact .budget fun _ enough =>
      (reads_skipDigits digits (stops_exponent isExponent ended) (length_le_budget enough)).bind
        ((reads_peek_any _).bind further)

theorem reads_skipNumber (unsigned : Unsigned s) (ended : Ended rest) :
    Reads skipNumber (s ++ rest) () rest := by
  obtain ⟨isWhole, isFraction, isExponent⟩ := unsigned
  have tail := reads_skipTail isFraction isExponent ended
  have stops := stops_fraction isFraction isExponent ended
  rw [List.append_assoc, List.append_assoc]
  cases isWhole with
  | zero =>
    refine (reads_peek '0' _).bind ((reads_drop '0' _).bind ((reads_peekDigit_none stops).bind ?_))
    rw [if_neg (by simp)]
    exact tail
  | @more c s nonzero digits =>
    refine (reads_peek c _).bind ?_
    dsimp only
    split
    · next same => exact absurd (Option.some.inj same) nonzero
    · next d _ same =>
      cases same
      rw [if_pos (digits c List.mem_cons_self)]
      exact .budget fun _ enough =>
        (reads_skipDigits digits stops (length_le_budget enough)).bind tail
    · next none => cases none

end Reader

end NetworkCa.Json
