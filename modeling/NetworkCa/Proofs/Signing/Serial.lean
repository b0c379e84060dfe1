import NetworkCa.Crypto.Sha256
import NetworkCa.Der.Writer
import NetworkCa.Proofs.Text.Blank
import NetworkCa.Proofs.Text.Hex
import NetworkCa.Signing.Serial

namespace NetworkCa

namespace Der

theorem natOfBytes_reverse (bytes : Bytes) :
    natOfBytes bytes.reverse = bytes.foldr (fun b n => 256 * n + b.toNat) 0 :=
  List.foldl_reverse

theorem natOfBytes_zero_cons (rest : Bytes) : natOfBytes (0 :: rest) = natOfBytes rest := rfl

theorem natOfBytes_dropWhile_zero (bytes : Bytes) :
    natOfBytes (bytes.dropWhile (· == 0)) = natOfBytes bytes := by
  induction bytes with
  | nil => rfl
  | cons b rest ih =>
    by_cases zero : b = 0
    · rw [List.dropWhile_cons_of_pos (by simpa using zero), ih, zero, natOfBytes_zero_cons]
    · rw [List.dropWhile_cons_of_neg (by simpa using zero)]

theorem natOfBytes_positiveContent (bytes : Bytes) :
    natOfBytes (positiveContent bytes) = natOfBytes bytes := by
  rw [← natOfBytes_dropWhile_zero bytes, positiveContent]
  cases bytes.dropWhile (· == 0) with
  | nil => rfl
  | cons b rest =>
    dsimp only
    split
    · rfl
    · exact natOfBytes_zero_cons _

end Der

namespace Crypto.Sha256

theorem length_digest (message : Bytes) : (digest message).length = 32 := rfl

end Crypto.Sha256

namespace Serial

theorem value_incrementReversed (bytes : Bytes) :
    (incrementReversed bytes).foldr (fun b n => 256 * n + b.toNat) 0 =
      bytes.foldr (fun b n => 256 * n + b.toNat) 0 + 1 := by
  induction bytes with
  | nil => rfl
  | cons b rest ih =>
    by_cases full : b = 255
    · have carried : b.toNat = 255 := by rw [full]; rfl
      have none : (0 : UInt8).toNat = 0 := rfl
      rw [incrementReversed, if_pos full, List.foldr_cons, List.foldr_cons, ih, carried, none]
      omega
    · have bound := b.toNat_lt
      have less : b.toNat ≠ 255 := fun same => full (UInt8.toNat.inj same)
      have one : (1 : UInt8).toNat = 1 := rfl
      have higher : (b + 1).toNat = b.toNat + 1 := by
        rw [UInt8.toNat_add, one]
        omega
      rw [incrementReversed, if_neg full, List.foldr_cons, List.foldr_cons, higher]
      omega

theorem natOfBytes_increment (serial : Bytes) :
    Der.natOfBytes (increment serial) = Der.natOfBytes serial + 1 := by
  rw [increment, Der.natOfBytes_reverse, value_incrementReversed, ← Der.natOfBytes_reverse,
    List.reverse_reverse]

/-- A serial that a count starts with: twenty bytes, of which none is lost in a certificate. -/
def Fresh (serial : Bytes) : Prop :=
  serial.length = 20 ∧ ∃ lead rest, serial = lead :: rest ∧ 0x01 ≤ lead ∧ lead ≤ 0x7F

theorem lead_bounds (b : UInt8) : 0x01 ≤ max (b &&& 0x7F) 1 ∧ max (b &&& 0x7F) 1 ≤ 0x7F := by
  have masked : b &&& 0x7F ≤ 0x7F := by
    rw [UInt8.le_iff_toNat_le, UInt8.toNat_and]
    exact Nat.and_le_right
  change 0x01 ≤ (if b &&& 0x7F ≤ 1 then 1 else b &&& 0x7F) ∧
    (if b &&& 0x7F ≤ 1 then 1 else b &&& 0x7F) ≤ 0x7F
  split
  · decide
  · next more => exact ⟨UInt8.le_of_lt (UInt8.not_le.1 more), masked⟩

theorem fresh_ofBlock {block : Bytes} (long : block.length = 32) : Fresh (ofBlock block) := by
  cases block with
  | nil => cases long
  | cons b rest =>
    have rest_long : rest.length = 31 := Nat.succ.inj long
    have cut : ofBlock (b :: rest) = max (b &&& 0x7F) 1 :: rest.take 19 := rfl
    refine ⟨?_, _, _, cut, lead_bounds b⟩
    rw [cut, List.length_cons, List.length_take, rest_long]
    rfl

theorem toList_print (serial : Bytes) :
    (print serial).toList = Text.Hex.digits serial ++ ['\n'] := by
  rw [print, String.toList_append, Text.Hex.upper, String.toList_ofList]
  rfl

theorem decode?_encode_print (serial : Bytes) :
    Text.Utf8.decode? (Text.Utf8.encode (print serial)) = some (print serial) := by
  apply Text.Utf8.decode?_encode
  rw [toList_print]
  intro c member
  rcases List.mem_append.1 member with digit | newline
  · exact (Text.Hex.digits_plain serial c digit).1
  · obtain rfl := List.mem_singleton.1 newline
    exact (by decide : '\n'.toNat < 128)

theorem parse_print (serial : Bytes) : parse (print serial) = .ok serial := by
  have solid : ∀ c ∈ Text.Hex.digits serial, Text.isBlank c = false :=
    fun c member => (Text.Hex.digits_plain serial c member).2
  have upper := Text.Hex.decode_upper serial
  rw [Text.Utf8.encode, Text.Hex.upper, String.toList_ofList] at upper
  have newline : ∀ c ∈ ['\n'], Text.isBlank c = true := List.forall_mem_singleton.2 (by decide)
  have trimmed := Text.trim_padded solid (List.forall_mem_nil _) newline
  rw [List.nil_append] at trimmed
  rw [parse, toList_print, trimmed]
  exact upper

end Serial

end NetworkCa
