import NetworkCa.Der.Reader

namespace NetworkCa.Der

theorem natOfBytes_append (bytes : Bytes) (b : UInt8) :
    natOfBytes (bytes ++ [b]) = 256 * natOfBytes bytes + b.toNat := by
  rw [natOfBytes, List.foldl_append]
  rfl

theorem natOfBytes_bytesOfNat (n : Nat) : natOfBytes (bytesOfNat n) = n := by
  fun_induction bytesOfNat n with
  | case1 => rfl
  | case2 n positive ih =>
    rw [natOfBytes_append, ih, UInt8.toNat_ofNat']
    omega

theorem length_bytesOfNat_le {n k : Nat} (h : n < Nat.pow 256 k) : (bytesOfNat n).length ≤ k := by
  fun_induction bytesOfNat n generalizing k with
  | case1 => exact Nat.zero_le k
  | case2 n positive ih =>
    cases k with
    | zero =>
      change n < 1 at h
      omega
    | succ k =>
      change n < Nat.pow 256 k * 256 at h
      have shorter : (bytesOfNat (n / 256)).length ≤ k := ih (by omega)
      rw [List.length_append, List.length_singleton]
      omega

theorem length_bytesOfNat_pos {n : Nat} (h : 0 < n) : 0 < (bytesOfNat n).length := by
  rw [bytesOfNat, dif_neg (by omega), List.length_append, List.length_singleton]
  omega

theorem length_write_pos (t : Tag) (content : Bytes) : 0 < (write t content).length := by
  rw [write, tagBytes, List.length_append, List.length_append]
  split
  · rw [List.length_singleton]
    omega
  · rw [List.length_cons]
    omega

theorem Tag.accepts_self (t : Tag) : t.accepts t = true := by
  rw [accepts, decide_eq_true rfl]
  cases t.constructed <;> rfl

/-- Bytes of which the number fits into the eight bytes that a length may take. -/
def Sized (bytes : Bytes) : Prop := bytes.length < Nat.pow 256 8

instance (bytes : Bytes) : Decidable (Sized bytes) := Nat.decLt _ _

section

variable {a b c : Bytes} {t : Tag}

theorem Sized.left (h : Sized (a ++ b)) : Sized a := by
  rw [Sized, List.length_append] at h
  exact Nat.lt_of_le_of_lt (Nat.le_add_right _ _) h

theorem Sized.right (h : Sized (a ++ b)) : Sized b := by
  rw [Sized, List.length_append] at h
  exact Nat.lt_of_le_of_lt (Nat.le_add_left _ _) h

theorem Sized.content (h : Sized (write t c)) : Sized c := by
  rw [write] at h
  exact h.right

theorem Sized.mem {parts : List Bytes} (h : Sized parts.flatten) (member : a ∈ parts) :
    Sized a := by
  obtain ⟨before, after, rfl⟩ := List.append_of_mem member
  rw [List.flatten_append, List.flatten_cons] at h
  exact h.right.left

end

namespace Reader

section

variable {α β : Type} {a : α} {b : β} {r : Reader α} {f : α → Reader β} {t : Tag}
  {input mid rest tail c : Bytes}

/-- From `input` the reader `r` reads `a` and leaves `rest`. -/
def Reads (r : Reader α) (input : Bytes) (a : α) (rest : Bytes) : Prop :=
  r input = some (a, rest)

theorem Reads.pure (a : α) (input : Bytes) : Reads (pure a) input a input := rfl

theorem Reads.bind (first : Reads r input a mid) (next : Reads (f a) mid b rest) :
    Reads (r >>= f) input b rest := by
  change (r input).bind (fun p => f p.1 p.2) = _
  rw [first]
  exact next

theorem reads_get (input : Bytes) : Reads get input input input := rfl

theorem reads_lift (a : α) (input : Bytes) :
    Reads (liftM (some a)) input a input := rfl

theorem reads_atEnd (input : Bytes) : Reads atEnd input input.isEmpty input := rfl

theorem reads_atEnd_write (t : Tag) (c rest : Bytes) :
    Reads atEnd (write t c ++ rest) false (write t c ++ rest) := by
  have more : (write t c ++ rest).isEmpty = false := by
    rw [List.isEmpty_eq_false_iff]
    exact List.append_ne_nil_of_left_ne_nil (List.ne_nil_of_length_pos (length_write_pos t c)) rest
  exact more ▸ reads_atEnd _

theorem reads_byte (b : UInt8) (rest : Bytes) : Reads byte (b :: rest) b rest := rfl

theorem reads_take (c rest : Bytes) : Reads (take c.length) (c ++ rest) c rest := by
  rw [Reads, take, if_pos (by simp), List.splitAt_eq, List.take_left, List.drop_left]

theorem reads_tag (low : t.number < 31) (rest : Bytes) :
    Reads tag (tagBytes t ++ rest) t rest := by
  obtain ⟨kind, number, constructed⟩ := t
  dsimp only at low
  have bits : kind.bits ≤ 3 := by cases kind <;> decide
  have form : (if constructed then 32 else 0) = 32 * constructed.toNat := by
    cases constructed <;> rfl
  have one : constructed.toNat ≤ 1 := Bool.toNat_le constructed
  rw [tagBytes, if_pos low, form]
  have value : (UInt8.ofNat (64 * kind.bits + 32 * constructed.toNat + number)).toNat =
      64 * kind.bits + 32 * constructed.toNat + number := by
    rw [UInt8.toNat_ofNat']
    omega
  generalize UInt8.ofNat (64 * kind.bits + 32 * constructed.toNat + number) = b at value
  have digits : b.toNat % 32 = number := by omega
  have high : TagClass.ofByte b = kind := by
    have quotient : b.toNat / 64 = kind.bits := by omega
    rw [TagClass.ofByte, quotient]
    cases kind <;> rfl
  have middle : decide (b.toNat / 32 % 2 = 1) = constructed := by
    have bit : b.toNat / 32 % 2 = constructed.toNat := by omega
    rw [bit]
    cases constructed <;> rfl
  have short : ¬ b.toNat % 32 = 31 := by omega
  apply (reads_byte b rest).bind
  rw [if_neg short, digits]
  apply (Reads.pure number rest).bind
  rw [high, middle]
  exact .pure _ _

theorem reads_length {n : Nat} (small : n < Nat.pow 256 8) (rest : Bytes) :
    Reads length (lengthBytes n ++ rest) n rest := by
  rw [lengthBytes]
  split
  · next short =>
    have value : (UInt8.ofNat n).toNat = n := by
      rw [UInt8.toNat_ofNat']
      omega
    apply (reads_byte _ rest).bind
    have low : UInt8.ofNat n < 128 := by
      rw [UInt8.lt_iff_toNat_lt, value]
      exact short
    rw [if_pos low, value]
    exact .pure _ _
  · next long =>
    have atMost : (bytesOfNat n).length ≤ 8 := length_bytesOfNat_le small
    have positive : 0 < (bytesOfNat n).length := length_bytesOfNat_pos (by omega)
    have value : (UInt8.ofNat (128 + (bytesOfNat n).length)).toNat =
        128 + (bytesOfNat n).length := by
      rw [UInt8.toNat_ofNat']
      omega
    apply (reads_byte _ _).bind
    have high : ¬ UInt8.ofNat (128 + (bytesOfNat n).length) < 128 := by
      rw [UInt8.lt_iff_toNat_lt, value]
      exact Nat.not_lt.mpr (Nat.le_add_right _ _)
    rw [if_neg high, value, Nat.add_sub_cancel_left]
    have count : ((bytesOfNat n).length = 0 || (bytesOfNat n).length > 8) = false := by
      rw [Bool.or_eq_false_iff, decide_eq_false_iff_not, decide_eq_false_iff_not]
      omega
    simp only [count]
    apply (reads_take _ rest).bind
    rw [natOfBytes_bytesOfNat]
    exact .pure n rest

theorem reads_header (low : t.number < 31) (fits : Sized c) (rest : Bytes) :
    Reads header (write t c ++ rest) (t, c.length) (c ++ rest) := by
  rw [write, List.append_assoc, List.append_assoc]
  exact (reads_tag low _).bind ((reads_length fits _).bind (.pure _ _))

theorem reads_element (low : t.number < 31) (fits : Sized c) (rest : Bytes) :
    Reads element (write t c ++ rest) ⟨t, c⟩ rest :=
  (reads_header low fits rest).bind ((reads_take c rest).bind (.pure _ _))

theorem reads_content (low : t.number < 31) (fits : Sized c) (rest : Bytes) :
    Reads (content t) (write t c ++ rest) c rest := by
  apply (reads_element low fits rest).bind
  rw [if_pos t.accepts_self]
  exact .pure c rest

theorem content_none {other : Tag} (low : other.number < 31) (fits : Sized c)
    (differs : t.accepts other = false) (rest : Bytes) :
    content t (write other c ++ rest) = none := by
  change (element (write other c ++ rest)).bind (fun p =>
    (if t.accepts p.1.tag then pure p.1.content else failure : Reader Bytes) p.2) = none
  rw [reads_element low fits rest, Option.bind_some, differs]
  rfl

theorem reads_inside (low : t.number < 31) (fits : Sized c) (body : Reads r c a tail)
    (rest : Bytes) : Reads (inside t r) (write t c ++ rest) a rest := by
  apply (reads_content low fits rest).bind
  rw [body]
  exact .pure a rest

theorem reads_filling (low : t.number < 31) (fits : Sized c) (body : Reads r c a [])
    (rest : Bytes) : Reads (filling t r) (write t c ++ rest) a rest := by
  apply (reads_content low fits rest).bind
  rw [body]
  exact .pure a rest

theorem reads_maybe (read : Reads r input a rest) : Reads (maybe r) input (some a) rest := by
  rw [Reads, maybe, read]

theorem reads_maybe_none (fails : r input = none) : Reads (maybe r) input none input := by
  rw [Reads, maybe, fails]

theorem reads_withBytes (read : Reads r (c ++ rest) a rest) :
    Reads (withBytes r) (c ++ rest) (a, c) rest := by
  rw [Reads, withBytes, read]
  dsimp only
  rw [List.length_append, Nat.add_sub_cancel, List.take_left]

theorem reads_objectIdentifier {o : Oid} (fits : Sized o.content) (rest : Bytes) :
    Reads objectIdentifier (Der.objectIdentifier o ++ rest) o rest :=
  (reads_content (by decide) fits rest).bind (.pure o rest)

theorem bitsOfContent_whole (bytes : Bytes) : bitsOfContent (0 :: bytes) = some (0, bytes) := by
  cases bytes with
  | nil => rfl
  | cons b rest =>
    have one : Nat.pow 2 (0 : UInt8).toNat = 1 := rfl
    have whole : ((0 : UInt8).toNat ≤ 8 &&
        (((b :: rest).getLast?.getD 0).toNat % Nat.pow 2 (0 : UInt8).toNat = 0 : Bool)) = true := by
      rw [one, Nat.mod_one]
      rfl
    rw [bitsOfContent, if_pos whole]
    · rfl
    · intro none
      cases none

theorem reads_bitString (fits : Sized (0 :: c)) (rest : Bytes) :
    Reads bitString (Der.bitString c ++ rest) (0, c) rest := by
  apply (reads_content (by decide) fits rest).bind
  rw [bitsOfContent_whole]
  exact reads_lift _ _

theorem exists_reads_many (r : Reader α) (fuel : Nat) (input : Bytes) :
    ∃ list rest, Reads (many r fuel) input list rest := by
  induction fuel generalizing input with
  | zero => exact ⟨[], input, .pure _ _⟩
  | succ fuel ih =>
    cases read : r input with
    | none => exact ⟨[], input, (reads_maybe_none read).bind (.pure _ _)⟩
    | some p =>
      obtain ⟨list, rest, more⟩ := ih p.2
      exact ⟨p.1 :: list, rest, (reads_maybe read).bind (more.bind (.pure _ _))⟩

theorem exists_reads_zeroOrMore (r : Reader α) (input : Bytes) :
    ∃ list rest, Reads (zeroOrMore r) input list rest := by
  obtain ⟨list, rest, read⟩ := exists_reads_many r input.length input
  exact ⟨list, rest, (reads_get input).bind read⟩

theorem reads_many {encode : α → Bytes} (stops : r [] = none) {list : List α} {fuel : Nat}
    (each : ∀ a ∈ list, ∀ rest, Reads r (encode a ++ rest) a rest) (enough : list.length ≤ fuel) :
    Reads (many r fuel) (list.map encode).flatten list [] := by
  induction list generalizing fuel with
  | nil =>
    cases fuel with
    | zero => exact .pure _ _
    | succ fuel => exact (reads_maybe_none stops).bind (.pure _ _)
  | cons a list ih =>
    cases fuel with
    | zero => cases enough
    | succ fuel =>
      have first := each a List.mem_cons_self (list.map encode).flatten
      have later := ih (fun b member => each b (List.mem_cons_of_mem a member))
        (Nat.le_of_succ_le_succ enough)
      exact (reads_maybe first).bind (later.bind (.pure _ _))

theorem length_le_flatten {encode : α → Bytes} (solid : ∀ a, 0 < (encode a).length)
    (list : List α) : list.length ≤ (list.map encode).flatten.length := by
  induction list with
  | nil => exact Nat.zero_le _
  | cons a list ih =>
    have first := solid a
    rw [List.map_cons, List.flatten_cons, List.length_append, List.length_cons]
    omega

theorem reads_zeroOrMore {encode : α → Bytes} (stops : r [] = none)
    (solid : ∀ a, 0 < (encode a).length) {list : List α}
    (each : ∀ a ∈ list, ∀ rest, Reads r (encode a ++ rest) a rest) :
    Reads (zeroOrMore r) (list.map encode).flatten list [] :=
  (reads_get _).bind (reads_many stops each (length_le_flatten solid list))

theorem readFront_eq (read : Reads r input a rest) : readFront r input = some a := by
  rw [readFront, read]
  rfl

end

end Reader

end NetworkCa.Der
