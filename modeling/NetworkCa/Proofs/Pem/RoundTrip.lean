import Mathlib.Data.List.Chain
import NetworkCa.Pem.Printer
import NetworkCa.Proofs.Pem.Concatenation
import NetworkCa.Proofs.Text.Base64
import NetworkCa.Proofs.Text.Hex

namespace NetworkCa.Pem

open Text (IsAscii isBlank)
open Text.Base64 (IsSymbol)

section Search

variable {marker left input taken rest more : Bytes} {m : UInt8}

theorem takeThrough_self (rest : Bytes) (h : left ≠ []) :
    takeThrough marker left (left ++ rest) = some (left, rest) := by
  induction left with
  | nil => exact absurd rfl h
  | cons m next ih =>
    rw [List.cons_append, takeThrough, if_pos rfl]
    by_cases last : next = []
    · subst last
      rfl
    · rw [if_neg (by simpa using last), ih last]
      rfl

theorem readUntil_marker (fresh : m ∉ taken) (rest : Bytes) :
    readUntil (m :: more) (taken ++ m :: more ++ rest) = some (taken, rest) := by
  have found : takeThrough (m :: more) (m :: more) (taken ++ m :: more ++ rest) =
      some (taken ++ m :: more, rest) := by
    induction taken with
    | nil => exact takeThrough_self rest (by simp)
    | cons b taken ih =>
      have other : b ≠ m := fun same => fresh (same ▸ List.mem_cons_self)
      rw [List.cons_append, List.cons_append, takeThrough_cons_of_ne other,
        ih fun later => fresh (List.mem_cons_of_mem _ later)]
      rfl
  rw [readUntil, found]
  simp

theorem infix_of_takeThrough {before : Bytes} (split : marker = before ++ left)
    (h : takeThrough marker left input = some (taken, rest)) : marker <:+: before ++ input := by
  induction input generalizing left taken before with
  | nil => cases h
  | cons b input ih =>
    cases left with
    | nil => cases h
    | cons m next =>
      rw [takeThrough] at h
      split at h
      · next hit =>
        subst hit
        split at h
        · next last =>
          rw [split, List.isEmpty_iff.1 last]
          exact ⟨[], input, by simp⟩
        · obtain ⟨⟨taken', _⟩, found, _⟩ := Option.map_eq_some_iff.1 h
          cases ‹(_, _) = _›
          have onward := ih (show marker = (before ++ [b]) ++ next by simpa using split) found
          simpa using onward
      · obtain ⟨⟨taken', _⟩, found, _⟩ := Option.map_eq_some_iff.1 h
        cases ‹(_, _) = _›
        have onward := ih (List.nil_append _).symm found
        have later : input <:+ before ++ b :: input :=
          (List.suffix_cons b input).trans (List.suffix_append _ _)
        exact onward.trans later.isInfix

theorem readUntil_eq_none (h : ¬marker <:+: input) : readUntil marker input = none := by
  rw [readUntil, Option.map_eq_none_iff, Option.eq_none_iff_forall_ne_some]
  rintro ⟨taken, rest⟩ found
  exact h (by simpa using infix_of_takeThrough (List.nil_append _).symm found)

end Search

section Body

variable {symbols : Bytes} {fuel : Nat}

theorem mem_wrapped {b : UInt8} (h : b ∈ wrapped symbols fuel) : b ∈ symbols ∨ b = 10 := by
  induction fuel generalizing symbols with
  | zero => cases h
  | succ fuel ih =>
    cases symbols with
    | nil => cases h
    | cons s more =>
      rw [wrapped, List.mem_append, List.mem_cons] at h
      · rcases h with line | end_ | later
        · exact .inl (List.mem_of_mem_take line)
        · exact .inr end_
        · exact (ih later).imp_left List.mem_of_mem_drop
      · simp

theorem head?_wrapped {b : UInt8} (h : (wrapped symbols fuel).head? = some b) : b ∈ symbols := by
  cases fuel with
  | zero => cases h
  | succ fuel =>
    cases symbols with
    | nil => cases h
    | cons s more =>
      cases h
      exact List.mem_cons_self

theorem wrapped_chain (solid : 10 ∉ symbols) :
    (wrapped symbols fuel).IsChain fun a b => a ≠ 10 ∨ b ≠ 10 := by
  induction fuel generalizing symbols with
  | zero => exact .nil
  | succ fuel ih =>
    cases symbols with
    | nil => exact .nil
    | cons s more =>
      have line : ∀ b ∈ (s :: more).take lineLength, b ≠ 10 :=
        fun b hb same => solid (same ▸ List.mem_of_mem_take hb)
      have later : 10 ∉ (s :: more).drop lineLength := fun h => solid (List.mem_of_mem_drop h)
      have unbroken : ((s :: more).take lineLength).IsChain fun a b => a ≠ 10 ∨ b ≠ 10 := by
        apply List.Pairwise.isChain
        exact List.pairwise_of_forall_mem_list fun a ha _ _ => .inl (line a ha)
      have onward : (10 :: wrapped ((s :: more).drop lineLength) fuel).IsChain
          fun a b => a ≠ 10 ∨ b ≠ 10 := by
        apply List.isChain_cons.2
        refine ⟨fun b front => .inr fun same => later ?_, ih later⟩
        exact same ▸ head?_wrapped front
      rw [wrapped]
      · apply List.isChain_append.2
        exact ⟨unbroken, onward, fun a last b _ => .inl (line a (List.mem_of_mem_getLast? last))⟩
      · simp

theorem filter_wrapped (solid : 10 ∉ symbols) (enough : symbols.length < fuel) :
    (wrapped symbols fuel).filter (· != 10) = symbols := by
  induction fuel generalizing symbols with
  | zero => omega
  | succ fuel ih =>
    cases symbols with
    | nil => rfl
    | cons s more =>
      have later : 10 ∉ (s :: more).drop lineLength := fun h => solid (List.mem_of_mem_drop h)
      have line : ((s :: more).take lineLength).filter (· != 10) = (s :: more).take lineLength := by
        apply List.filter_eq_self.2
        intro b hb
        have other : b ≠ 10 := fun same => solid (same ▸ List.mem_of_mem_take hb)
        simpa using other
      have shorter : ((s :: more).drop lineLength).length < fuel := by
        rw [List.length_cons] at enough
        rw [List.length_drop, List.length_cons, lineLength]
        omega
      rw [wrapped, List.filter_append, line, List.filter_cons_of_neg (by simp), ih later shorter,
        List.take_append_drop]
      simp

end Body

def Presentable (label : String) : Prop := label ≠ "" ∧ ∀ c ∈ label.toList, IsAscii c ∧ c ≠ '-'

theorem presentable_of_all {label : String} (full : label ≠ "")
    (plain : (label.toList.all fun c => c.toNat < 128 && c ≠ '-') = true) : Presentable label := by
  refine ⟨full, fun c hc => ?_⟩
  have known := List.all_eq_true.1 plain c hc
  simpa [IsAscii] using known

section Block

variable {b : Block}

theorem plain_of_isSymbol {s : UInt8} (h : IsSymbol s) :
    s < 128 ∧ s ≠ 13 ∧ s ≠ 45 ∧ isGap s = false ∧ isBlank (Char.ofNat s.toNat) = false := by
  have all : ∀ n : Fin 256, IsSymbol (UInt8.ofNat n) → UInt8.ofNat n < 128 ∧
      UInt8.ofNat n ≠ 13 ∧ UInt8.ofNat n ≠ 45 ∧ isGap (UInt8.ofNat n) = false ∧
      isBlank (Char.ofNat (UInt8.ofNat n).toNat) = false := by decide +kernel
  have known := all ⟨s.toNat, s.toNat_lt⟩
  simp only [UInt8.ofNat_toNat] at known
  exact known h

theorem plain_of_mem_label {label : String} (presentable : Presentable label) {s : UInt8}
    (h : s ∈ ascii label) : s < 128 ∧ s ≠ 45 := by
  obtain ⟨c, hc, encoded⟩ := List.mem_flatMap.1 h
  obtain ⟨known, other⟩ := presentable.2 c hc
  have bound : c.toNat < 128 := known
  rw [Text.Utf8.encodeChar_ascii known, List.mem_singleton] at encoded
  have same : s.toNat = c.toNat := by
    rw [encoded, UInt8.toNat_ofNat']
    omega
  constructor
  · rw [UInt8.lt_iff_toNat_lt, same]
    exact bound
  · rintro rfl
    apply other
    rw [← Char.ofNat_toNat c, ← same]
    rfl

theorem asText_ascii {label : String} (presentable : Presentable label) :
    asText (ascii label) = .ok label := by
  rw [asText, ascii, Text.Utf8.decode_encode fun c hc => (presentable.2 c hc).1]

def Block.body (b : Block) : Bytes :=
  wrapped (Text.Base64.encode b.contents) ((Text.Base64.encode b.contents).length + 1)

theorem newline_not_mem_encode : 10 ∉ Text.Base64.encode b.contents := by
  intro h
  have gap := (plain_of_isSymbol (Text.Base64.isSymbol_of_mem_encode h)).2.2.2.1
  revert gap
  decide

theorem mem_body {s : UInt8} (h : s ∈ b.body) : IsSymbol s ∨ s = 10 :=
  (mem_wrapped h).imp_left Text.Base64.isSymbol_of_mem_encode

theorem ascii_body {s : UInt8} (h : s ∈ b.body) : s < 128 := by
  rcases mem_body h with symbol | rfl
  · exact (plain_of_isSymbol symbol).1
  · decide

theorem dash_not_mem_body : 45 ∉ b.body := by
  intro h
  rcases mem_body h with symbol | same
  · exact (plain_of_isSymbol symbol).2.2.1 rfl
  · cases same

theorem splitBody_body (b : Block) : splitBody b.body = ([], b.body) := by
  have unbroken : ¬[10, 10] <:+: b.body := by
    rintro ⟨before, after, split⟩
    have chain : b.body.IsChain fun a b => a ≠ 10 ∨ b ≠ 10 := wrapped_chain newline_not_mem_encode
    rw [← split] at chain
    have line := chain.left_of_append.right_of_append
    simp at line
  have returnless : ¬[13, 10, 13, 10] <:+: b.body := by
    intro h
    rcases mem_body (h.subset List.mem_cons_self) with symbol | same
    · exact (plain_of_isSymbol symbol).2.1 rfl
    · cases same
  rw [splitBody, readUntil_eq_none unbroken, readUntil_eq_none returnless]
  rfl

theorem skipGaps_body (b : Block) (rest : Bytes) :
    skipGaps (10 :: b.body ++ endMark ++ rest) = b.body ++ endMark ++ rest := by
  have dropped : skipGaps (10 :: b.body ++ endMark ++ rest) =
      skipGaps (b.body ++ endMark ++ rest) := rfl
  rw [dropped, skipGaps]
  rcases front : b.body with _ | ⟨s, more⟩
  · rfl
  · have symbol : s ∈ Text.Base64.encode b.contents :=
      head?_wrapped (show b.body.head? = some s by rw [front]; rfl)
    have solid := (plain_of_isSymbol (Text.Base64.isSymbol_of_mem_encode symbol)).2.2.2.1
    rw [List.cons_append, List.cons_append, List.dropWhile_cons_of_neg (by simp [solid])]

theorem readUntil_dashed {marker taken : Bytes} (start : marker.head? = some 45)
    (fresh : 45 ∉ taken) (rest : Bytes) :
    readUntil marker (taken ++ marker ++ rest) = some (taken, rest) := by
  cases marker with
  | nil => cases start
  | cons m more =>
    cases start
    exact readUntil_marker fresh rest

theorem readRaw_print (presentable : Presentable b.label) :
    readRaw b.print = some (⟨ascii b.label, [], b.body, ascii b.label⟩, []) := by
  -- No part of the text has a dash before its own marker, so each search ends at that.
  let ending := ascii b.label ++ dashes ++ [10]
  let content := 10 :: b.body ++ endMark ++ ending
  have print : b.print = beginMark ++ (ascii b.label ++ dashes ++ content) := by
    simp [Block.print, Block.body, content, ending]
  have unlabelled : 45 ∉ ascii b.label := fun h => (plain_of_mem_label presentable h).2 rfl
  have opens : readUntil beginMark b.print = some ([], ascii b.label ++ dashes ++ content) := by
    rw [print]
    exact @readUntil_dashed beginMark [] (by decide +kernel) (by simp) _
  have labels : ∀ rest, readUntil dashes (ascii b.label ++ dashes ++ rest) =
      some (ascii b.label, rest) := readUntil_dashed (by decide +kernel) unlabelled
  have closes : readUntil endMark (skipGaps content) = some (b.body, ending) := by
    rw [skipGaps_body]
    exact readUntil_dashed (by decide +kernel) dash_not_mem_body _
  apply readRaw_eq_some.2
  refine ⟨[], _, b.body, _, _, content, ending, [10], opens, labels content, closes, labels [10],
    ?_, rfl⟩
  rw [splitBody_body]

theorem decodeData_body (b : Block) :
    decodeData (String.ofList (Text.Utf8.asciiChars b.body)) = .ok b.contents := by
  have solid : (Text.Utf8.asciiChars b.body).filter (fun c => !isBlank c) =
      Text.Utf8.asciiChars (b.body.filter (· != 10)) := by
    rw [Text.Utf8.asciiChars, List.filter_map]
    congr 1
    apply List.filter_congr
    intro s hs
    rcases mem_body hs with symbol | rfl
    · have plain := plain_of_isSymbol symbol
      have other : s ≠ 10 := by
        rintro rfl
        exact absurd plain.2.2.2.1 (by decide)
      simp [plain.2.2.2.2, other]
    · decide
  have symbols : b.body.filter (· != 10) = Text.Base64.encode b.contents :=
    filter_wrapped newline_not_mem_encode (Nat.lt_succ_self _)
  have ascii : ∀ s ∈ Text.Base64.encode b.contents, s < 128 :=
    fun s hs => (plain_of_isSymbol (Text.Base64.isSymbol_of_mem_encode hs)).1
  rw [decodeData, String.toList_ofList, solid, symbols, Text.Utf8.encodeChars_asciiChars ascii,
    Text.Base64.decode_encode]

theorem block_print (presentable : Presentable b.label) :
    Raw.block ⟨ascii b.label, [], b.body, ascii b.label⟩ = .ok b := by
  have labelled : b.label.isEmpty = false := by
    simpa [String.isEmpty_iff] using presentable.1
  have data : asText b.body = .ok (String.ofList (Text.Utf8.asciiChars b.body)) := by
    rw [asText, Text.Utf8.decode_of_ascii fun s hs => ascii_body hs]
  have headers : asText [] = .ok "" := rfl
  have unheaded : (Text.lines "".toList).mapM checkHeader = .ok [] := rfl
  simp only [Raw.block, asText_ascii presentable, data, headers, decodeData_body, bind, Except.bind,
    labelled, unheaded, ne_eq, not_true_eq_false, Bool.false_eq_true, if_false]
  rfl

theorem ascii_print (presentable : Presentable b.label) {s : UInt8} (h : s ∈ b.print) :
    s < 128 := by
  have marks : ∀ s ∈ beginMark ++ endMark ++ dashes ++ [10], s < 128 := by decide +kernel
  have parts : s ∈ beginMark ++ endMark ++ dashes ++ [10] ∨ s ∈ ascii b.label ∨ s ∈ b.body := by
    rw [Block.print, ← Block.body] at h
    simp only [List.mem_append, List.mem_cons, List.not_mem_nil, or_false] at h ⊢
    rcases h with ((((((h | h) | h) | h | h) | h) | h) | h) | h <;>
      simp only [h, true_or, or_true]
  rcases parts with mark | label | body
  · exact marks s mark
  · exact (plain_of_mem_label presentable label).1
  · exact ascii_body body

theorem first_print (presentable : Presentable b.label) : first b.print = .ok b := by
  rw [first, readRaw_print presentable]
  exact block_print presentable

end Block

end NetworkCa.Pem
