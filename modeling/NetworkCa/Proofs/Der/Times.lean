import NetworkCa.Certificate.Time
import NetworkCa.Proofs.Calendar
import NetworkCa.Proofs.Der.Reading
import NetworkCa.Proofs.Text.Hex

namespace NetworkCa

namespace Text

theorem toList_digits (width n : Nat) :
    (digits width n).toList =
      List.replicate (width - (Nat.toDigits 10 n).length) '0' ++ Nat.toDigits 10 n := by
  rw [digits, alignWith, Nat.toString_eq_ofList_toDigits, String.length_ofList,
    String.toList_ofList, String.toList_ofList, List.replicate_zero, List.append_nil]

theorem toList_digits_one {n : Nat} (low : n < 10) : (digits 1 n).toList = [n.digitChar] := by
  rw [toList_digits, Nat.toDigits_of_lt_base low]
  rfl

theorem toList_digits_succ {width : Nat} (wide : 0 < width) (n : Nat) :
    (digits (width + 1) n).toList = (digits width (n / 10)).toList ++ [(n % 10).digitChar] := by
  rw [toList_digits, toList_digits]
  by_cases low : n < 10
  · have tenth : n / 10 = 0 := by omega
    have last : n % 10 = n := by omega
    have zeros : List.replicate (width + 1 - 1) '0' = List.replicate (width - 1) '0' ++ ['0'] := by
      rw [← List.replicate_succ', Nat.sub_add_cancel wide, Nat.add_sub_cancel]
    rw [tenth, last, Nat.toDigits_of_lt_base low, Nat.toDigits_zero, List.length_singleton,
      List.length_singleton, zeros]
  · rw [Nat.toDigits_of_base_le (by decide) (by omega), List.length_append, List.length_singleton,
      Nat.add_sub_add_right, List.append_assoc]

theorem toList_digits_two {n : Nat} (low : n < 100) :
    (digits 2 n).toList = [(n / 10).digitChar, (n % 10).digitChar] := by
  rw [toList_digits_succ Nat.one_pos, toList_digits_one (by omega)]
  rfl

theorem toList_digits_four (n : Nat) :
    (digits 4 n).toList = (digits 2 (n / 100)).toList ++ (digits 2 (n % 100)).toList := by
  have tens : n % 100 / 10 = n / 10 % 10 := by omega
  have ones : n % 100 % 10 = n % 10 := by omega
  rw [toList_digits_succ (by decide), toList_digits_succ (by decide), Nat.div_div_eq_div_mul,
    toList_digits_two (show n % 100 < 100 by omega), tens, ones, List.append_assoc]
  rfl

end Text

namespace Der

open Reader

theorem digit?_digitChar {n : Nat} (low : n < 10) :
    digit? (UInt8.ofNat n.digitChar.toNat) = some n := by
  decide +revert

def pair (n : Nat) : Bytes := Text.Utf8.encodeChars (Text.digits 2 n).toList

theorem pair_eq {n : Nat} (low : n < 100) :
    pair n = [UInt8.ofNat (n / 10).digitChar.toNat, UInt8.ofNat (n % 10).digitChar.toNat] := by
  have ascii : ∀ digit < 10, digit.digitChar.toNat < 128 := by decide
  rw [pair, Text.toList_digits_two low, Text.Utf8.encodeChars, List.flatMap_cons,
    List.flatMap_cons, Text.Utf8.encodeChar_ascii (ascii _ (by omega)),
    Text.Utf8.encodeChar_ascii (ascii _ (by omega))]
  rfl

theorem reads_twoDigits {n : Nat} (low : n < 100) (rest : Bytes) :
    Reads twoDigits (pair n ++ rest) n rest := by
  rw [pair_eq low]
  apply (reads_byte _ _).bind
  rw [digit?_digitChar (show n / 10 < 10 by omega)]
  apply (reads_lift _ _).bind
  apply (reads_byte _ _).bind
  rw [digit?_digitChar (show n % 10 < 10 by omega)]
  apply (reads_lift _ _).bind
  rw [Nat.div_add_mod]
  exact .pure n rest

theorem encode_four (n : Nat) :
    Text.Utf8.encodeChars (Text.digits 4 n).toList = pair (n / 100) ++ pair (n % 100) := by
  rw [Text.toList_digits_four, Text.Utf8.encodeChars, List.flatMap_append]
  rfl

theorem encode_midnightText (width : Nat) (d : Date) :
    midnightText width d =
      Text.Utf8.encodeChars (Text.digits width (d.year.toNat % Nat.pow 10 width)).toList ++
        (pair d.month ++ (pair d.day ++ (pair 0 ++ (pair 0 ++ (pair 0 ++ [zulu]))))) := by
  simp only [midnightText, Text.Utf8.encode, String.toList_append, Text.Utf8.encodeChars,
    List.flatMap_append, List.append_assoc, pair]
  rfl

theorem reads_restOfTime {d : Date} (valid : d.isValid = true) {ending : Reader Int}
    (ends : Reads ending [zulu] 0 []) :
    Reads (restOfTime d.year ending)
      (pair d.month ++ (pair d.day ++ (pair 0 ++ (pair 0 ++ (pair 0 ++ [zulu])))))
      (d.unixDay * Instant.daySeconds) [] := by
  have ⟨months, days⟩ := (Date.isValid_iff d).mp valid
  have atMost := Date.daysInMonth_le d.year d.month
  apply (reads_twoDigits (by omega) _).bind
  apply (reads_twoDigits (by omega) _).bind
  apply (reads_twoDigits (by decide) _).bind
  apply (reads_twoDigits (by decide) _).bind
  apply (reads_get _).bind
  have more : ¬ pair 0 ++ [zulu] = [zulu] := by decide
  rw [if_neg more]
  apply (reads_twoDigits (by decide) _).bind
  apply ends.bind
  have midnight : Instant.ofDate d 0 0 0 - 0 = d.unixDay * Instant.daySeconds := by
    simp [Instant.ofDate]
  rw [← midnight]
  simp only [valid]
  exact .pure _ _

theorem reads_utcTime {d : Date} (valid : d.isValid = true)
    (century : 1950 ≤ d.year ∧ d.year < 2050) :
    Reads utcTime (midnightText 2 d) (d.unixDay * Instant.daySeconds) [] := by
  have hundred : Nat.pow 10 2 = 100 := rfl
  rw [encode_midnightText, hundred]
  apply (reads_twoDigits (n := d.year.toNat % 100) (by omega) _).bind
  have year : (if d.year.toNat % 100 ≥ 50 then (1900 + (d.year.toNat % 100 : Nat) : Int)
      else 2000 + (d.year.toNat % 100 : Nat)) = d.year := by
    split <;> omega
  rw [year]
  exact reads_restOfTime valid rfl

theorem reads_generalizedTime {d : Date} (writable : d.Writable) :
    Reads generalizedTime (midnightText 4 d) (d.unixDay * Instant.daySeconds) [] := by
  have fourDigits := writable.fourDigits
  have whole : d.year.toNat % Nat.pow 10 4 = d.year.toNat := Nat.mod_eq_of_lt (by
    change d.year.toNat < 10000
    omega)
  rw [encode_midnightText, whole, encode_four, List.append_assoc]
  apply (reads_twoDigits (n := d.year.toNat / 100) (by omega) _).bind
  apply (reads_twoDigits (n := d.year.toNat % 100) (by omega) _).bind
  have year : (100 * (d.year.toNat / 100 : Nat) + (d.year.toNat % 100 : Nat) : Int) = d.year := by
    omega
  rw [year]
  exact reads_restOfTime writable.valid rfl

/-- A date is read as the instant of its midnight, whichever way its year is written. -/
theorem reads_time {d : Date} (writable : d.Writable) (fits : Sized (midnight d)) (rest : Bytes) :
    Reads time (midnight d ++ rest) (d.unixDay * Instant.daySeconds) rest := by
  have utc : Tag.utcTime.accepts .utcTime = true := by decide
  have generalized : Tag.generalizedTime.accepts .generalizedTime = true := by decide
  have other : ¬ Tag.utcTime.accepts .generalizedTime = true := by decide
  rw [midnight] at fits ⊢
  split at fits
  · next century =>
    rw [if_pos century]
    apply (reads_element (by decide) fits.content rest).bind
    rw [if_pos utc, readFront_eq (reads_utcTime writable.valid century)]
    exact reads_lift _ rest
  · next century =>
    rw [if_neg century]
    apply (reads_element (by decide) fits.content rest).bind
    rw [if_neg other, if_pos generalized, readFront_eq (reads_generalizedTime writable)]
    exact reads_lift _ rest

end Der

end NetworkCa
