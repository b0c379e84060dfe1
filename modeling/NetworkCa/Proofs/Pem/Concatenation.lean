import NetworkCa.Certificate.Chain

namespace NetworkCa.Pem

variable {marker left input more taken rest : Bytes} {raw : Raw} {fuel : Nat}

theorem takeThrough_cons {b : UInt8}
    (h : takeThrough marker left (b :: input) = some (taken, rest)) :
    ∃ m next, left = m :: next ∧
      ((b = m ∧ next = [] ∧ taken = [b] ∧ rest = input) ∨
        ∃ onward taken', takeThrough marker onward input = some (taken', rest) ∧
          taken = b :: taken' ∧
          ∀ text, takeThrough marker left (b :: text) =
            (takeThrough marker onward text).map fun (found, rest) => (b :: found, rest)) := by
  cases left with
  | nil => cases h
  | cons m next =>
    refine ⟨m, next, rfl, ?_⟩
    have unfolded (text : Bytes) : takeThrough marker (m :: next) (b :: text) =
        if b = m then
          if next.isEmpty then some ([b], text)
          else (takeThrough marker next text).map fun (found, rest) => (b :: found, rest)
        else (takeThrough marker marker text).map fun (found, rest) => (b :: found, rest) := rfl
    have onward (goal : Bytes) (same : ∀ text, takeThrough marker (m :: next) (b :: text) =
          (takeThrough marker goal text).map fun (found, rest) => (b :: found, rest)) :
        ∃ onward taken', takeThrough marker onward input = some (taken', rest) ∧
          taken = b :: taken' ∧
          ∀ text, takeThrough marker (m :: next) (b :: text) =
            (takeThrough marker onward text).map fun (found, rest) => (b :: found, rest) := by
      rw [same] at h
      obtain ⟨⟨taken', rest'⟩, found, split⟩ := Option.map_eq_some_iff.1 h
      cases split
      exact ⟨goal, taken', found, rfl, same⟩
    by_cases hit : b = m
    · by_cases last : next.isEmpty
      · rw [unfolded, if_pos hit, if_pos last] at h
        cases h
        exact .inl ⟨hit, List.isEmpty_iff.1 last, rfl, rfl⟩
      · exact .inr (onward next fun text => by rw [unfolded, if_pos hit, if_neg last])
    · exact .inr (onward marker fun text => by rw [unfolded, if_neg hit])

theorem takeThrough_append (h : takeThrough marker left input = some (taken, rest)) :
    takeThrough marker left (input ++ more) = some (taken, rest ++ more) := by
  induction input generalizing left taken with
  | nil => cases h
  | cons b input ih =>
    rcases takeThrough_cons h with ⟨m, next, rfl, ⟨rfl, rfl, rfl, rfl⟩ |
      ⟨onward, taken', found, rfl, step⟩⟩
    · simp [takeThrough]
    · rw [List.cons_append, step, ih found]
      rfl

theorem takeThrough_shorter (h : takeThrough marker left input = some (taken, rest)) :
    rest.length < input.length := by
  induction input generalizing left taken with
  | nil => cases h
  | cons b input ih =>
    rw [List.length_cons]
    rcases takeThrough_cons h with ⟨m, next, rfl, ⟨rfl, rfl, rfl, rfl⟩ |
      ⟨onward, taken', found, rfl, step⟩⟩
    · omega
    · have := ih found
      omega

theorem readUntil_append (h : readUntil marker input = some (taken, rest)) :
    readUntil marker (input ++ more) = some (taken, rest ++ more) := by
  obtain ⟨⟨taken', rest'⟩, found, same⟩ := Option.map_eq_some_iff.1 h
  cases same
  rw [readUntil, takeThrough_append found]
  rfl

theorem readUntil_shorter (h : readUntil marker input = some (taken, rest)) :
    rest.length < input.length := by
  obtain ⟨⟨taken', rest'⟩, found, same⟩ := Option.map_eq_some_iff.1 h
  cases same
  exact takeThrough_shorter found

theorem skipGaps_shorter (input : Bytes) : (skipGaps input).length ≤ input.length :=
  (List.dropWhile_suffix isGap).length_le

theorem skipGaps_append_of_ne_nil (h : skipGaps input ≠ []) :
    skipGaps (input ++ more) = skipGaps input ++ more := by
  unfold skipGaps at h ⊢
  rw [List.dropWhile_append, if_neg (by simpa using h)]

theorem skipGaps_append_of_nil (h : skipGaps input = []) :
    skipGaps (input ++ more) = skipGaps more := by
  unfold skipGaps at h ⊢
  rw [List.dropWhile_append, if_pos (by simpa using h)]

theorem readRaw_eq_some : readRaw input = some (raw, rest) ↔
    ∃ skipped opening body closing, ∃ r₁ r₂ r₃ r₄ : Bytes,
      readUntil beginMark input = some (skipped, r₁) ∧
      readUntil dashes r₁ = some (opening, r₂) ∧
      readUntil endMark (skipGaps r₂) = some (body, r₃) ∧
      readUntil dashes r₃ = some (closing, r₄) ∧
      raw = ⟨opening, (splitBody body).1, (splitBody body).2, closing⟩ ∧
      rest = skipGaps r₄ := by
  simp only [readRaw, Option.bind_eq_bind, Option.bind_eq_some_iff, Option.pure_def,
    Option.some.injEq, Prod.mk.injEq, Prod.exists]
  constructor
  · rintro ⟨skipped, r₁, h₁, opening, r₂, h₂, body, r₃, h₃, closing, r₄, h₄, rfl, rfl⟩
    exact ⟨skipped, opening, body, closing, r₁, r₂, r₃, r₄, h₁, h₂, h₃, h₄, rfl, rfl⟩
  · rintro ⟨skipped, opening, body, closing, r₁, r₂, r₃, r₄, h₁, h₂, h₃, h₄, rfl, rfl⟩
    exact ⟨skipped, r₁, h₁, opening, r₂, h₂, body, r₃, h₃, closing, r₄, h₄, rfl, rfl⟩

theorem readRaw_shorter (h : readRaw input = some (raw, rest)) : rest.length < input.length := by
  obtain ⟨_, _, _, _, r₁, r₂, r₃, r₄, h₁, h₂, h₃, h₄, _, rfl⟩ := readRaw_eq_some.1 h
  have := readUntil_shorter h₁
  have := readUntil_shorter h₂
  have := readUntil_shorter h₃
  have := readUntil_shorter h₄
  have := skipGaps_shorter r₂
  have := skipGaps_shorter r₄
  omega

/-- A block with nothing but gaps behind it is read the same way when more text follows. -/
theorem readRaw_append (h : readRaw input = some (raw, [])) :
    readRaw (input ++ more) = some (raw, skipGaps more) := by
  obtain ⟨skipped, opening, body, closing, r₁, r₂, r₃, r₄, h₁, h₂, h₃, h₄, same, gaps⟩ :=
    readRaw_eq_some.1 h
  refine readRaw_eq_some.2 ⟨skipped, opening, body, closing, r₁ ++ more, r₂ ++ more, r₃ ++ more,
    r₄ ++ more, readUntil_append h₁, readUntil_append h₂, ?_, readUntil_append h₄, same,
    (skipGaps_append_of_nil gaps.symm).symm⟩
  -- Gaps right at the end would go on into the text that follows, but the body ends behind them.
  have going : skipGaps r₂ ≠ [] := by
    intro none
    rw [none] at h₃
    cases h₃
  rw [skipGaps_append_of_ne_nil going]
  exact readUntil_append h₃

theorem takeThrough_cons_of_ne {b m : UInt8} (h : b ≠ m) :
    takeThrough (m :: left) (m :: left) (b :: input) =
      (takeThrough (m :: left) (m :: left) input).map fun (taken, rest) => (b :: taken, rest) := by
  rw [takeThrough]
  exact if_neg h

theorem beginMark_eq : beginMark = 45 :: beginMark.tail := by decide +kernel

theorem readRaw_cons_gap {b : UInt8} (gap : isGap b = true) :
    readRaw (b :: input) = readRaw input := by
  have other : b ≠ 45 := by
    rintro rfl
    revert gap
    decide
  have found : (readUntil beginMark (b :: input)).map Prod.snd =
      (readUntil beginMark input).map Prod.snd := by
    rw [readUntil, readUntil, beginMark_eq, takeThrough_cons_of_ne other]
    simp only [Option.map_map]
    rfl
  have rewritten (text : Bytes) : readRaw text =
      ((readUntil beginMark text).map Prod.snd).bind fun rest => do
        let (opening, rest) ← readUntil dashes rest
        let (body, rest) ← readUntil endMark (skipGaps rest)
        let (closing, rest) ← readUntil dashes rest
        let (headers, data) := splitBody body
        return (⟨opening, headers, data, closing⟩, skipGaps rest) := by
    rw [readRaw]
    cases readUntil beginMark text <;> rfl
  rw [rewritten, rewritten, found]

theorem readRaw_skipGaps (input : Bytes) : readRaw (skipGaps input) = readRaw input := by
  induction input with
  | nil => rfl
  | cons b input ih =>
    by_cases gap : isGap b = true
    · rw [skipGaps, List.dropWhile_cons_of_pos gap, readRaw_cons_gap gap]
      exact ih
    · rw [skipGaps, List.dropWhile_cons_of_neg gap]

theorem rawBlocks_skipGaps (input : Bytes) (fuel : Nat) :
    rawBlocks (skipGaps input) fuel = rawBlocks input fuel := by
  cases fuel with
  | zero => rfl
  | succ fuel => rw [rawBlocks, rawBlocks, readRaw_skipGaps]

theorem rawBlocks_of_length_le {fuel fuel' : Nat} (h : input.length ≤ fuel)
    (h' : input.length ≤ fuel') : rawBlocks input fuel = rawBlocks input fuel' := by
  induction fuel generalizing input fuel' with
  | zero =>
    obtain rfl := List.eq_nil_of_length_eq_zero (Nat.le_zero.1 h)
    cases fuel' <;> rfl
  | succ fuel ih =>
    cases fuel' with
    | zero =>
      obtain rfl := List.eq_nil_of_length_eq_zero (Nat.le_zero.1 h')
      rfl
    | succ fuel' =>
      rw [rawBlocks, rawBlocks]
      rcases found : readRaw input with _ | ⟨raw, rest⟩
      · rfl
      · have shorter := readRaw_shorter found
        exact congrArg _ (ih (by omega) (by omega))

theorem blocks_append (h : readRaw input = some (raw, [])) :
    blocks (input ++ more) = do return (← raw.block) :: (← blocks more) := by
  have shorter := readRaw_shorter h
  obtain ⟨fuel, same⟩ := Nat.exists_eq_add_of_lt shorter
  have here : rawBlocks (input ++ more) (input ++ more).length =
      raw :: rawBlocks more more.length := by
    have long : (input ++ more).length = (fuel + more.length) + 1 := by
      rw [List.length_append, same, List.length_nil]
      omega
    rw [long, rawBlocks, readRaw_append h]
    dsimp only
    rw [rawBlocks_skipGaps, rawBlocks_of_length_le (by omega) (Nat.le_refl _)]
  rw [blocks, here, List.mapM_cons, blocks]

end NetworkCa.Pem

namespace NetworkCa.Certificate

theorem chainOfText_append {input more der : Bytes} {raw : Pem.Raw}
    (h : Pem.readRaw input = some (raw, [])) (block : raw.block = .ok ⟨label, der⟩) :
    chainOfText (input ++ more) = (chainOfText more).map (der :: ·) := by
  rw [chainOfText, chainOfText, Pem.blocks_append h, block]
  rcases Pem.blocks more with fault | blocks
  · rfl
  · simp [Except.map, bind, Except.bind, pure, Except.pure]

end NetworkCa.Certificate
