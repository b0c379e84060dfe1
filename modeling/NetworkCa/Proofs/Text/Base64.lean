import NetworkCa.Text.Base64

namespace NetworkCa.Text.Base64

theorem value?_symbol {n : Nat} (h : n < 64) : value? (symbol n) = some n := by
  have all : ∀ n : Fin 64, value? (symbol n) = some n.val := by decide
  exact all ⟨n, h⟩

theorem symbol_ne_pad {n : Nat} (h : n < 64) : symbol n ≠ pad := by
  intro same
  have known := value?_symbol h
  rw [same] at known
  cases known

theorem valueAt_symbol {n : Nat} (h : n < 64) (offset : Nat) :
    valueAt offset (symbol n) = .ok n := by
  rw [valueAt, value?_symbol h]

theorem bytesOfGroup_of_bytes (a b c : UInt8) :
    bytesOfGroup (a.toNat / 4) (a.toNat % 4 * 16 + b.toNat / 16) (b.toNat % 16 * 4 + c.toNat / 64)
      (c.toNat % 64) = [a, b, c] := by
  have := b.toNat_lt
  have := c.toNat_lt
  have first : a.toNat / 4 * 4 + (a.toNat % 4 * 16 + b.toNat / 16) / 16 = a.toNat := by omega
  have second :
      (a.toNat % 4 * 16 + b.toNat / 16) % 16 * 16 + (b.toNat % 16 * 4 + c.toNat / 64) / 4 =
        b.toNat := by omega
  have third : (b.toNat % 16 * 4 + c.toNat / 64) % 4 * 64 + c.toNat % 64 = c.toNat := by omega
  rw [bytesOfGroup, first, second, third]
  simp only [UInt8.ofNat_toNat]

section Last

variable {v0 v1 v2 v3 : Nat}

theorem decodeLast_two (h0 : v0 < 64) (h1 : v1 < 64) (whole : v1 % 16 = 0) (offset : Nat) :
    decodeLast offset [symbol v0, symbol v1, pad, pad] = .ok [UInt8.ofNat (v0 * 4 + v1 / 16)] := by
  simp [decodeLast, lastSymbols, symbol_ne_pad h0, symbol_ne_pad h1, valueAt_symbol h0,
    valueAt_symbol h1, whole, bind, Except.bind, pure, Except.pure]

theorem decodeLast_three (h0 : v0 < 64) (h1 : v1 < 64) (h2 : v2 < 64) (whole : v2 % 4 = 0)
    (offset : Nat) :
    decodeLast offset [symbol v0, symbol v1, symbol v2, pad] =
      .ok ((bytesOfGroup v0 v1 v2 0).take 2) := by
  simp [decodeLast, lastSymbols, symbol_ne_pad h0, symbol_ne_pad h1, symbol_ne_pad h2,
    valueAt_symbol h0, valueAt_symbol h1, valueAt_symbol h2, whole, bind, Except.bind, pure,
    Except.pure]

theorem decodeLast_four (h0 : v0 < 64) (h1 : v1 < 64) (h2 : v2 < 64) (h3 : v3 < 64)
    (offset : Nat) :
    decodeLast offset [symbol v0, symbol v1, symbol v2, symbol v3] =
      .ok (bytesOfGroup v0 v1 v2 v3) := by
  simp [decodeLast, lastSymbols, symbol_ne_pad h0, symbol_ne_pad h1, symbol_ne_pad h2,
    symbol_ne_pad h3, valueAt_symbol h0, valueAt_symbol h1, valueAt_symbol h2, valueAt_symbol h3,
    bind, Except.bind, pure, Except.pure]

end Last

theorem decodeGroups_four {v0 v1 v2 v3 : Nat} (h0 : v0 < 64) (h1 : v1 < 64) (h2 : v2 < 64)
    (h3 : v3 < 64) (offset : Nat) (more : Bytes) :
    decodeGroups offset (symbol v0 :: symbol v1 :: symbol v2 :: symbol v3 :: more) =
      (decodeGroups (offset + 4) more).map (bytesOfGroup v0 v1 v2 v3 ++ ·) := by
  cases more with
  | nil =>
    have last : decodeGroups offset [symbol v0, symbol v1, symbol v2, symbol v3] =
        decodeLast offset [symbol v0, symbol v1, symbol v2, symbol v3] := rfl
    rw [last, decodeLast_four h0 h1 h2 h3]
    simp [decodeGroups, Except.map]
  | cons e rest =>
    rw [decodeGroups, valueAt_symbol h0, valueAt_symbol h1, valueAt_symbol h2, valueAt_symbol h3]
    cases decodeGroups (offset + 4) (e :: rest) <;> rfl

theorem decodeGroups_encode (bytes : Bytes) (offset : Nat) :
    decodeGroups offset (encode bytes) = .ok bytes := by
  induction bytes using encode.induct generalizing offset with
  | case1 => rfl
  | case2 a =>
    have := a.toNat_lt
    rw [encode, decodeGroups, decodeLast_two (by omega) (by omega) (by omega)]
    · have whole : a.toNat / 4 * 4 + a.toNat % 4 * 16 / 16 = a.toNat := by omega
      rw [whole, UInt8.ofNat_toNat]
    all_goals simp
  | case3 a b =>
    have := a.toNat_lt
    have := b.toNat_lt
    rw [encode, decodeGroups, decodeLast_three (by omega) (by omega) (by omega) (by omega)]
    · have group := bytesOfGroup_of_bytes a b 0
      simp only [UInt8.toNat_zero, Nat.zero_div, Nat.zero_mod, Nat.add_zero] at group
      rw [group]
      rfl
    all_goals simp
  | case4 a b c rest ih =>
    have := a.toNat_lt
    have := b.toNat_lt
    have := c.toNat_lt
    rw [encode, decodeGroups_four (by omega) (by omega) (by omega) (by omega), ih,
      bytesOfGroup_of_bytes]
    rfl

theorem length_encode_mod (bytes : Bytes) : (encode bytes).length % 4 = 0 := by
  induction bytes using encode.induct with
  | case1 => rfl
  | case2 => simp [encode]
  | case3 => simp [encode]
  | case4 a b c rest ih =>
    simp only [encode, List.length_cons]
    omega

theorem decode_encode (bytes : Bytes) : decode (encode bytes) = .ok bytes := by
  rw [decode]
  rcases last : (encode bytes).getLast? with _ | b
  · rw [List.getLast?_eq_none_iff] at last
    rw [← decodeGroups_encode bytes 0, last]
    rfl
  · simp [length_encode_mod bytes, decodeGroups_encode bytes 0]

def IsSymbol (b : UInt8) : Prop := (value? b).isSome ∨ b = pad

instance (b : UInt8) : Decidable (IsSymbol b) := inferInstanceAs (Decidable (_ ∨ _))

theorem isSymbol_symbol (n : Nat) : IsSymbol (symbol n) := by
  by_cases h : n < 64
  · left
    rw [value?_symbol h]
    rfl
  · have last : symbol n = 47 := by
      simp only [symbol]
      rw [if_neg (by omega), if_neg (by omega), if_neg (by omega), if_neg (by omega)]
    rw [last]
    decide

theorem isSymbol_of_mem_encode {bytes : Bytes} {b : UInt8} (h : b ∈ encode bytes) : IsSymbol b := by
  induction bytes using encode.induct with
  | case1 => cases h
  | case2 a =>
    simp only [encode, List.mem_cons, List.not_mem_nil, or_false] at h
    rcases h with rfl | rfl | rfl | rfl
    · exact isSymbol_symbol _
    · exact isSymbol_symbol _
    all_goals exact .inr rfl
  | case3 a c =>
    simp only [encode, List.mem_cons, List.not_mem_nil, or_false] at h
    rcases h with rfl | rfl | rfl | rfl
    · exact isSymbol_symbol _
    · exact isSymbol_symbol _
    · exact isSymbol_symbol _
    · exact .inr rfl
  | case4 a c d rest ih =>
    simp only [encode, List.mem_cons] at h
    rcases h with rfl | rfl | rfl | rfl | h
    · exact isSymbol_symbol _
    · exact isSymbol_symbol _
    · exact isSymbol_symbol _
    · exact isSymbol_symbol _
    · exact ih h

end NetworkCa.Text.Base64
