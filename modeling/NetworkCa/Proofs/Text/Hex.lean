import NetworkCa.Text.Blank
import NetworkCa.Text.Hex

namespace NetworkCa.Text

def IsAscii (c : Char) : Prop := c.toNat < 128

namespace Utf8

theorem encodeChar_ascii {c : Char} (ascii : IsAscii c) :
    String.utf8EncodeChar c = [UInt8.ofNat c.toNat] := by
  have size : c.utf8Size = 1 := by
    rw [Char.utf8Size_eq_one_iff, UInt32.le_iff_toNat_le]
    have bound : c.val.toNat < 128 := ascii
    have limit : (127 : UInt32).toNat = 127 := rfl
    omega
  rw [String.utf8EncodeChar_eq_singleton size]
  rfl

theorem piecesAfter_ascii {c : Char} (ascii : IsAscii c) (rest : Bytes) :
    piecesAfter 0 (UInt8.ofNat c.toNat :: rest) = .char c :: piecesAfter 0 rest := by
  have bound : c.toNat < 128 := ascii
  have same : (UInt8.ofNat c.toNat).toNat = c.toNat := by
    rw [UInt8.toNat_ofNat']
    omega
  have small : UInt8.ofNat c.toNat < 0x80 := by
    rw [UInt8.lt_iff_toNat_lt, same]
    exact bound
  rw [piecesAfter, pieceAt, if_pos small, same, Char.ofNat_toNat]

theorem decode_encode {s : String} (ascii : ∀ c ∈ s.toList, IsAscii c) :
    decode (encode s) = .ok s := by
  have cut : ∀ chars : List Char, (∀ c ∈ chars, IsAscii c) →
      pieces (encodeChars chars) = chars.map .char := by
    intro chars
    induction chars with
    | nil => exact fun _ => rfl
    | cons c rest ih =>
      intro ascii
      have tail := ih fun d hd => ascii d (List.mem_cons_of_mem c hd)
      have head := ascii c List.mem_cons_self
      rw [encodeChars, List.flatMap_cons, encodeChar_ascii head, ← encodeChars, pieces,
        List.singleton_append, piecesAfter_ascii head, ← pieces, tail, List.map_cons]
  have collected : ∀ (chars : List Char) (offset : Nat),
      collect offset (chars.map .char) = .ok chars := by
    intro chars
    induction chars with
    | nil => exact fun _ => rfl
    | cons c rest ih =>
      intro offset
      rw [List.map_cons, collect, ih]
      rfl
  rw [decode, encode, cut _ ascii, collected]
  simp [Except.map]

theorem decode?_encode {s : String} (ascii : ∀ c ∈ s.toList, IsAscii c) :
    decode? (encode s) = some s := by
  rw [decode?, decode_encode ascii]
  rfl

def asciiChars (bytes : Bytes) : List Char := bytes.map fun b => Char.ofNat b.toNat

theorem toNat_ofNat_of_ascii {b : UInt8} (ascii : b < 128) :
    (Char.ofNat b.toNat).toNat = b.toNat := by
  have bound : b.toNat < 128 := UInt8.lt_iff_toNat_lt.1 ascii
  have valid : b.toNat.isValidChar := .inl (by omega)
  rw [Char.ofNat, dif_pos valid]
  rfl

theorem asciiChars_ascii {bytes : Bytes} (ascii : ∀ b ∈ bytes, b < 128) :
    ∀ c ∈ asciiChars bytes, IsAscii c := by
  intro c hc
  obtain ⟨b, hb, rfl⟩ := List.mem_map.1 hc
  rw [IsAscii, toNat_ofNat_of_ascii (ascii b hb)]
  exact UInt8.lt_iff_toNat_lt.1 (ascii b hb)

theorem encodeChars_asciiChars {bytes : Bytes} (ascii : ∀ b ∈ bytes, b < 128) :
    encodeChars (asciiChars bytes) = bytes := by
  induction bytes with
  | nil => rfl
  | cons b rest ih =>
    have head := ascii b List.mem_cons_self
    have known : IsAscii (Char.ofNat b.toNat) :=
      asciiChars_ascii ascii _ (List.mem_map_of_mem List.mem_cons_self)
    rw [asciiChars, List.map_cons, encodeChars, List.flatMap_cons, encodeChar_ascii known,
      toNat_ofNat_of_ascii head, UInt8.ofNat_toNat, ← encodeChars, ← asciiChars,
      ih fun b hb => ascii b (List.mem_cons_of_mem _ hb)]
    rfl

theorem encode_asciiChars {bytes : Bytes} (ascii : ∀ b ∈ bytes, b < 128) :
    encode (String.ofList (asciiChars bytes)) = bytes := by
  rw [encode, String.toList_ofList, encodeChars_asciiChars ascii]

theorem decode_of_ascii {bytes : Bytes} (ascii : ∀ b ∈ bytes, b < 128) :
    decode bytes = .ok (String.ofList (asciiChars bytes)) := by
  have known : ∀ c ∈ (String.ofList (asciiChars bytes)).toList, IsAscii c := by
    rw [String.toList_ofList]
    exact asciiChars_ascii ascii
  rw [← decode_encode known, encode_asciiChars ascii]

end Utf8

namespace Hex

theorem digitValue?_upperDigit {n : Nat} (h : n < 16) :
    digitValue? (UInt8.ofNat (upperDigit n).toNat) = some (UInt8.ofNat n) := by
  have all : ∀ n < 16, digitValue? (UInt8.ofNat (upperDigit n).toNat) = some (UInt8.ofNat n) := by
    decide
  exact all n h

theorem upperDigit_plain {n : Nat} (h : n < 16) :
    IsAscii (upperDigit n) ∧ isBlank (upperDigit n) = false := by
  have all : ∀ n < 16, (upperDigit n).toNat < 128 ∧ isBlank (upperDigit n) = false := by decide
  exact all n h

theorem halves (b : UInt8) : b.toNat / 16 < 16 ∧ b.toNat % 16 < 16 := by
  have bound := b.toNat_lt
  omega

theorem join_halves (b : UInt8) :
    UInt8.ofNat (b.toNat / 16) * 16 + UInt8.ofNat (b.toNat % 16) = b := by
  have bound := b.toNat_lt
  apply UInt8.toNat.inj
  have high : (UInt8.ofNat (b.toNat / 16)).toNat = b.toNat / 16 := by
    rw [UInt8.toNat_ofNat']
    omega
  have low : (UInt8.ofNat (b.toNat % 16)).toNat = b.toNat % 16 := by
    rw [UInt8.toNat_ofNat']
    omega
  rw [UInt8.toNat_add, UInt8.toNat_mul, high, low]
  have sixteen : (16 : UInt8).toNat = 16 := rfl
  rw [sixteen]
  omega

def digits (bytes : Bytes) : List Char := bytes.flatMap (byteWith upperDigit)

theorem digits_cons (b : UInt8) (rest : Bytes) :
    digits (b :: rest) = upperDigit (b.toNat / 16) :: upperDigit (b.toNat % 16) :: digits rest := rfl

theorem digits_plain (bytes : Bytes) :
    ∀ c ∈ digits bytes, IsAscii c ∧ isBlank c = false := by
  intro c member
  obtain ⟨b, _, member⟩ := List.mem_flatMap.1 member
  obtain ⟨high, low⟩ := halves b
  simp only [byteWith, List.mem_cons, List.not_mem_nil, or_false] at member
  rcases member with rfl | rfl
  · exact upperDigit_plain high
  · exact upperDigit_plain low

theorem encode_digits_cons (b : UInt8) (rest : Bytes) :
    Utf8.encodeChars (digits (b :: rest)) =
      UInt8.ofNat (upperDigit (b.toNat / 16)).toNat ::
        UInt8.ofNat (upperDigit (b.toNat % 16)).toNat :: Utf8.encodeChars (digits rest) := by
  obtain ⟨high, low⟩ := halves b
  rw [digits_cons, Utf8.encodeChars, List.flatMap_cons, List.flatMap_cons,
    Utf8.encodeChar_ascii (upperDigit_plain high).1,
    Utf8.encodeChar_ascii (upperDigit_plain low).1]
  rfl

theorem length_encode_digits (bytes : Bytes) :
    (Utf8.encodeChars (digits bytes)).length = 2 * bytes.length := by
  induction bytes with
  | nil => rfl
  | cons b rest ih =>
    rw [encode_digits_cons, List.length_cons, List.length_cons, List.length_cons, ih]
    omega

theorem decodePairs_digits (bytes : Bytes) (position : Nat) :
    decodePairs position (Utf8.encodeChars (digits bytes)) = .ok bytes := by
  induction bytes generalizing position with
  | nil => rfl
  | cons b rest ih =>
    obtain ⟨high, low⟩ := halves b
    rw [encode_digits_cons, decodePairs, digitAt, digitAt, digitValue?_upperDigit high,
      digitValue?_upperDigit low, ih]
    change Except.ok (_ :: rest) = _
    rw [join_halves]

theorem decode_upper (bytes : Bytes) : decode (Utf8.encode (upper bytes)) = .ok bytes := by
  have text : Utf8.encode (upper bytes) = Utf8.encodeChars (digits bytes) := by
    rw [Utf8.encode, upper, String.toList_ofList, ← digits]
  have even : (Utf8.encodeChars (digits bytes)).length % 2 = 0 := by
    rw [length_encode_digits]
    omega
  rw [text, decode, if_pos even, decodePairs_digits]

end Hex

end NetworkCa.Text
