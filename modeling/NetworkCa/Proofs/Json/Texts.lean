import NetworkCa.Proofs.Json.Answers
import NetworkCa.Proofs.Text.Hex

namespace NetworkCa.Json

open Reader

def hexDigit? (c : Char) : Option Nat :=
  if '0' ≤ c ∧ c ≤ '9' then some (c.toNat - 48)
  else if 'A' ≤ c ∧ c ≤ 'F' then some (c.toNat - 55)
  else if 'a' ≤ c ∧ c ≤ 'f' then some (c.toNat - 87)
  else none

inductive Quad : List Char → Nat → Prop
  | mk {c₁ c₂ c₃ c₄ : Char} {n₁ n₂ n₃ n₄ : Nat} :
    hexDigit? c₁ = some n₁ → hexDigit? c₂ = some n₂ → hexDigit? c₃ = some n₃ →
    hexDigit? c₄ = some n₄ → Quad [c₁, c₂, c₃, c₄] (16 * (16 * (16 * n₁ + n₂) + n₃) + n₄)

def joined (leading trailing : Nat) : Char :=
  Char.ofNat (0x10000 + (leading - 0xD800) * 0x400 + (trailing - 0xDC00))

/-- The texts up to their last quote, with what they spell: nothing if they have half a character
    beyond the basic plane without its other half. -/
inductive Spells : List Char → Option (List Char) → Prop
  | done : Spells ['"'] (some [])
  | plain {c : Char} {body : List Char} {s : Option (List Char)} :
    c ≠ '"' → c ≠ '\\' → 0x20 ≤ c.toNat → Spells body s → Spells (c :: body) (s.map (c :: ·))
  | escape {c e : Char} {body : List Char} {s : Option (List Char)} :
    plainEscape? c = some e → Spells body s → Spells ('\\' :: c :: body) (s.map (e :: ·))
  | unicode {n : Nat} {digits body : List Char} {s : Option (List Char)} :
    Quad digits n → isLeading n = false → isTrailing n = false → Spells body s →
    Spells ('\\' :: 'u' :: (digits ++ body)) (s.map (Char.ofNat n :: ·))
  | pair {n m : Nat} {digits digits' body : List Char} {s : Option (List Char)} :
    Quad digits n → isLeading n = true → Quad digits' m → isTrailing m = true → Spells body s →
    Spells ('\\' :: 'u' :: (digits ++ '\\' :: 'u' :: (digits' ++ body)))
      (s.map (joined n m :: ·))
  | half {n : Nat} {digits body : List Char} {s : Option (List Char)} :
    Quad digits n →
    (isTrailing n = true ∨ isLeading n = true ∧ ∀ m digits' more, Quad digits' m →
      body = '\\' :: 'u' :: (digits' ++ more) → isTrailing m = false) →
    Spells body s → Spells ('\\' :: 'u' :: (digits ++ body)) none

namespace Reader

variable {c e : Char} {n m fuel : Nat} {digits body rest : List Char} {o : Option (List Char)}

theorem hexValue?_of_hexDigit? (known : hexDigit? c = some n) :
    Text.IsAscii c ∧ hexValue? (UInt8.ofNat c.toNat) = some n := by
  have bounded {d : Char} (h : c ≤ d) (small : d.toNat < 128) : c.toNat < 128 :=
    Nat.lt_of_le_of_lt (UInt32.le_iff_toNat_le.1 h) small
  have ascii : c.toNat < 128 := by
    unfold hexDigit? at known
    split at known
    · next digit => exact bounded digit.2 (by decide)
    split at known
    · next upper => exact bounded upper.2 (by decide)
    split at known
    · next lower => exact bounded lower.2 (by decide)
    · cases known
  have all : ∀ n < 128, hexDigit? (Char.ofNat n) = hexValue? (UInt8.ofNat n) := by
    decide +kernel
  have here := all c.toNat ascii
  rw [Char.ofNat_toNat, known] at here
  exact ⟨ascii, here.symm⟩

theorem fourDigits_of_mapM {k : Cursor} {bytes : Bytes} {digits : List Nat}
    (taken : (Text.Utf8.encodeChars (k.rest.take 4)).take 4 = bytes) (four : bytes.length = 4)
    (known : bytes.mapM hexValue? = some digits) :
    fourDigits k = (.ok (digits.foldl (fun n d => 16 * n + d) 0),
      ⟨bytes.foldl Cursor.afterByte k.position, k.rest.drop 4, k.size⟩) := by
  have here : (get : Reader Cursor) k = (.ok k, k) := rfl
  rw [fourDigits, bind_of_ok here]
  dsimp only
  rw [taken, if_neg (by omega), known]
  rfl

theorem reads_fourDigits (quad : Quad digits n) (rest : List Char) :
    Reads fourDigits (digits ++ rest) n rest := by
  obtain @⟨c₁, c₂, c₃, c₄, n₁, n₂, n₃, n₄, known₁, known₂, known₃, known₄⟩ := quad
  obtain ⟨ascii₁, value₁⟩ := hexValue?_of_hexDigit? known₁
  obtain ⟨ascii₂, value₂⟩ := hexValue?_of_hexDigit? known₂
  obtain ⟨ascii₃, value₃⟩ := hexValue?_of_hexDigit? known₃
  obtain ⟨ascii₄, value₄⟩ := hexValue?_of_hexDigit? known₄
  have bytes : Text.Utf8.encodeChars [c₁, c₂, c₃, c₄] =
      [UInt8.ofNat c₁.toNat, UInt8.ofNat c₂.toNat, UInt8.ofNat c₃.toNat, UInt8.ofNat c₄.toNat] := by
    simp only [Text.Utf8.encodeChars, List.flatMap_cons, List.flatMap_nil,
      Text.Utf8.encodeChar_ascii ascii₁, Text.Utf8.encodeChar_ascii ascii₂,
      Text.Utf8.encodeChar_ascii ascii₃, Text.Utf8.encodeChar_ascii ascii₄]
    rfl
  have numbers : [UInt8.ofNat c₁.toNat, UInt8.ofNat c₂.toNat, UInt8.ofNat c₃.toNat,
      UInt8.ofNat c₄.toNat].mapM hexValue? = some [n₁, n₂, n₃, n₄] := by
    simp only [List.mapM_cons, List.mapM_nil, value₁, value₂, value₃, value₄]
    rfl
  refine ⟨by simp only [List.length_append]; omega, fun p size _ => ?_⟩
  have ran := fourDigits_of_mapM (k := ⟨p, c₁ :: c₂ :: c₃ :: c₄ :: rest, size⟩)
    (congrArg (List.take 4) bytes) rfl numbers
  simp only [List.foldl_cons, List.foldl_nil, Nat.mul_zero, Nat.zero_add] at ran
  exact ⟨_, ran⟩

theorem reads_escape_plain (known : plainEscape? c = some e) (rest : List Char) :
    Reads escape (c :: rest) e rest := by
  refine (reads_peek c rest).bind ?_
  split
  · next none => cases none
  · next hexadecimal =>
    cases hexadecimal
    cases known
  · next d _ same =>
    cases same
    rw [known]
    exact (reads_drop c rest).bind (.pure e rest)

theorem reads_escape_unicode (quad : Quad digits n) (leading : isLeading n = false)
    (trailing : isTrailing n = false) (rest : List Char) :
    Reads escape ('u' :: (digits ++ rest)) (Char.ofNat n) rest := by
  refine (reads_peek 'u' _).bind ((reads_drop 'u' _).bind ((reads_fourDigits quad rest).bind ?_))
  rw [trailing, if_neg (by simp), leading, if_neg (by simp)]
  exact .pure (Char.ofNat n) rest

theorem isTrailing_of_isLeading (leading : isLeading n = true) : isTrailing n = false := by
  simp only [isLeading, Bool.and_eq_true, decide_eq_true_eq] at leading
  rw [isTrailing, decide_eq_false (by omega), Bool.false_and]

theorem reads_escape_pair {digits' : List Char} (quad : Quad digits n)
    (leading : isLeading n = true) (quad' : Quad digits' m) (trailing : isTrailing m = true)
    (rest : List Char) :
    Reads escape ('u' :: (digits ++ '\\' :: 'u' :: (digits' ++ rest))) (joined n m) rest := by
  refine (reads_peek 'u' _).bind ((reads_drop 'u' _).bind ((reads_fourDigits quad _).bind ?_))
  rw [isTrailing_of_isLeading leading, if_neg (by simp), if_pos leading]
  refine (reads_peek '\\' _).bind ((reads_drop '\\' _).bind ((reads_peek 'u' _).bind
    ((reads_drop 'u' _).bind ((reads_fourDigits quad' rest).bind ?_))))
  rw [if_pos trailing]
  exact .pure (joined n m) rest

theorem fails_trailingHalf_plain (other : c ≠ '\\') (rest : List Char) :
    Fails (trailingHalf n) (c :: rest) := by
  refine (reads_peek c rest).fails ?_
  split
  · next none => cases none
  · next same => exact absurd (Option.some.inj same) other
  · exact (never_failAhead _).fails _

theorem fails_trailingHalf_escape (other : c ≠ 'u') (rest : List Char) :
    Fails (trailingHalf n) ('\\' :: c :: rest) := by
  refine (reads_peek '\\' _).fails ((reads_drop '\\' _).fails ((reads_peek c rest).fails ?_))
  split
  · next none => cases none
  · next same => exact absurd (Option.some.inj same) other
  · exact (never_failAhead _).fails _

theorem fails_trailingHalf_unicode (quad : Quad digits m) (trailing : isTrailing m = false)
    (rest : List Char) : Fails (trailingHalf n) ('\\' :: 'u' :: (digits ++ rest)) := by
  refine (reads_peek '\\' _).fails ((reads_drop '\\' _).fails ((reads_peek 'u' _).fails
    ((reads_drop 'u' _).fails ((reads_fourDigits quad rest).fails ?_))))
  rw [trailing, if_neg (by simp)]
  exact (never_failHere _).fails _

theorem fails_trailingHalf (spells : Spells body o)
    (alone : ∀ m digits' more, Quad digits' m → body = '\\' :: 'u' :: (digits' ++ more) →
      isTrailing m = false) (rest : List Char) : Fails (trailingHalf n) (body ++ rest) := by
  cases spells with
  | done => exact fails_trailingHalf_plain (by decide) rest
  | plain _ other _ _ => exact fails_trailingHalf_plain other _
  | escape known _ =>
    apply fails_trailingHalf_escape
    rintro rfl
    cases known
  | unicode quad _ trailing _ =>
    rw [List.cons_append, List.cons_append, List.append_assoc]
    exact fails_trailingHalf_unicode quad trailing _
  | pair quad leading _ _ _ =>
    rw [List.cons_append, List.cons_append, List.append_assoc]
    exact fails_trailingHalf_unicode quad (isTrailing_of_isLeading leading) _
  | half quad _ _ =>
    rw [List.cons_append, List.cons_append, List.append_assoc]
    exact fails_trailingHalf_unicode quad (alone _ _ _ quad rfl) _

theorem fails_escape (quad : Quad digits n) (spells : Spells body o)
    (half : isTrailing n = true ∨ isLeading n = true ∧ ∀ m digits' more, Quad digits' m →
      body = '\\' :: 'u' :: (digits' ++ more) → isTrailing m = false) (rest : List Char) :
    Fails escape ('u' :: (digits ++ (body ++ rest))) := by
  refine (reads_peek 'u' _).fails ((reads_drop 'u' _).fails ((reads_fourDigits quad _).fails ?_))
  rcases half with trailing | ⟨leading, alone⟩
  · rw [if_pos trailing]
    exact (never_failHere _).fails _
  · rw [isTrailing_of_isLeading leading, if_neg (by simp), if_pos leading]
    exact fails_trailingHalf spells alone rest

theorem answers_textBody (spells : Spells body o) (rest : List Char) (enough : body.length ≤ fuel) :
    Answers (textBody fuel) (body ++ rest) rest o := by
  induction spells generalizing fuel with
  | done =>
    obtain ⟨fuel, rfl⟩ : ∃ less, fuel = less + 1 := ⟨fuel - 1, (Nat.sub_add_cancel enough).symm⟩
    exact (reads_next '"' rest).bind (.pure [] rest)
  | @plain c body s quote backslash solid _ ih =>
    rw [List.length_cons] at enough
    obtain ⟨fuel, rfl⟩ : ∃ less, fuel = less + 1 := ⟨fuel - 1, by omega⟩
    refine .after (reads_next c (body ++ rest)) ?_
    split
    · next none => cases none
    · next same => exact absurd (Option.some.inj same) quote
    · next same => exact absurd (Option.some.inj same) backslash
    · next d _ _ same =>
      cases same
      rw [if_neg (Nat.not_lt.2 solid)]
      exact (ih (by omega)).map (c :: ·)
  | @escape c e body s known _ ih =>
    rw [List.length_cons, List.length_cons] at enough
    obtain ⟨fuel, rfl⟩ : ∃ less, fuel = less + 1 := ⟨fuel - 1, by omega⟩
    exact .after (reads_next '\\' _) (.after (reads_escape_plain known _)
      ((ih (by omega)).map (e :: ·)))
  | @unicode n digits body s quad leading trailing _ ih =>
    simp only [List.cons_append, List.append_assoc, List.length_cons, List.length_append]
      at enough ⊢
    obtain ⟨fuel, rfl⟩ : ∃ less, fuel = less + 1 := ⟨fuel - 1, by omega⟩
    exact .after (reads_next '\\' _) (.after (reads_escape_unicode quad leading trailing _)
      ((ih (by omega)).map (Char.ofNat n :: ·)))
  | @pair n m digits digits' body s quad leading quad' trailing _ ih =>
    simp only [List.cons_append, List.append_assoc, List.length_cons, List.length_append]
      at enough ⊢
    obtain ⟨fuel, rfl⟩ : ∃ less, fuel = less + 1 := ⟨fuel - 1, by omega⟩
    exact .after (reads_next '\\' _) (.after (reads_escape_pair quad leading quad' trailing _)
      ((ih (by omega)).map (joined n m :: ·)))
  | half quad alone spells _ =>
    -- What follows the half is never read, so that it does not matter how that is spelled.
    simp only [List.cons_append, List.append_assoc, List.length_cons, List.length_append]
      at enough ⊢
    obtain ⟨fuel, rfl⟩ : ∃ less, fuel = less + 1 := ⟨fuel - 1, by omega⟩
    exact (reads_next '\\' _).fails (Fails.bind (fails_escape quad spells alone rest))

theorem answers_text (spells : Spells body o) (rest : List Char) :
    Answers text (body ++ rest) rest (o.map String.ofList) :=
  .budget fun _ enough =>
    (answers_textBody spells rest (length_le_budget enough)).map String.ofList

theorem reads_skipEscape_plain (known : plainEscape? c = some e) (rest : List Char) :
    Reads skipEscape (c :: rest) () rest := by
  refine (reads_peek c rest).bind ?_
  split
  · next none => cases none
  · next hexadecimal =>
    cases hexadecimal
    cases known
  · next d _ same =>
    cases same
    rw [known, Option.isSome_some, if_pos rfl]
    exact reads_drop c rest

theorem reads_skipEscape_unicode (quad : Quad digits n) (rest : List Char) :
    Reads skipEscape ('u' :: (digits ++ rest)) () rest :=
  (reads_peek 'u' _).bind ((reads_drop 'u' _).bind
    ((reads_fourDigits quad rest).bind (.pure () rest)))

theorem reads_skipTextBody_escape {input mid : List Char} (escaped : Reads skipEscape input () mid)
    (further : Reads (skipTextBody fuel) mid () rest) :
    Reads (skipTextBody (fuel + 1)) ('\\' :: input) () rest :=
  (reads_peek '\\' input).bind ((reads_drop '\\' input).bind (escaped.bind further))

theorem reads_skipTextBody (spells : Spells body o) (rest : List Char)
    (enough : body.length ≤ fuel) : Reads (skipTextBody fuel) (body ++ rest) () rest := by
  induction spells generalizing fuel with
  | done =>
    obtain ⟨fuel, rfl⟩ : ∃ less, fuel = less + 1 := ⟨fuel - 1, (Nat.sub_add_cancel enough).symm⟩
    exact (reads_peek '"' rest).bind (reads_drop '"' rest)
  | @plain c body s quote backslash solid _ ih =>
    rw [List.length_cons] at enough
    obtain ⟨fuel, rfl⟩ : ∃ less, fuel = less + 1 := ⟨fuel - 1, by omega⟩
    refine (reads_peek c (body ++ rest)).bind ?_
    split
    · next none => cases none
    · next same => exact absurd (Option.some.inj same) quote
    · next same => exact absurd (Option.some.inj same) backslash
    · next d _ _ same =>
      cases same
      rw [if_neg (Nat.not_lt.2 solid)]
      exact (reads_drop c _).bind (ih (by omega))
  | escape known _ ih =>
    rw [List.length_cons, List.length_cons] at enough
    obtain ⟨fuel, rfl⟩ : ∃ less, fuel = less + 1 := ⟨fuel - 1, by omega⟩
    exact reads_skipTextBody_escape (reads_skipEscape_plain known _) (ih (by omega))
  | pair quad _ quad' _ _ ih =>
    simp only [List.cons_append, List.append_assoc, List.length_cons, List.length_append]
      at enough ⊢
    obtain ⟨fuel, rfl⟩ : ∃ less, fuel = less + 2 := ⟨fuel - 2, by omega⟩
    exact reads_skipTextBody_escape (reads_skipEscape_unicode quad _)
      (reads_skipTextBody_escape (reads_skipEscape_unicode quad' _) (ih (by omega)))
  | unicode quad _ _ _ ih | half quad _ _ ih =>
    simp only [List.cons_append, List.append_assoc, List.length_cons, List.length_append]
      at enough ⊢
    obtain ⟨fuel, rfl⟩ : ∃ less, fuel = less + 1 := ⟨fuel - 1, by omega⟩
    exact reads_skipTextBody_escape (reads_skipEscape_unicode quad _) (ih (by omega))

theorem reads_skipText (spells : Spells body o) (rest : List Char) :
    Reads skipText (body ++ rest) () rest :=
  .budget fun _ enough => reads_skipTextBody spells rest (length_le_budget enough)

end Reader

end NetworkCa.Json
