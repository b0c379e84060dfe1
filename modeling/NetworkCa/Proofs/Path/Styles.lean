import NetworkCa.Proofs.Path.LinkTarget

namespace NetworkCa.Path

variable {a b : List String}

theorem legacyRelative_of_apart (apart : ¬ Nested a b) :
    legacyRelative a b = shortestRelative a b := by
  have shorter := commonLength_lt_of_apart apart
  have some : b ≠ [] := List.ne_nil_of_length_pos (Nat.zero_lt_of_lt shorter.2)
  have filled : via a b (commonLength a b) ≠ [] := by
    rw [← List.length_pos_iff, length_via]
    omega
  rw [legacyRelative_eq some, divergence_of_apart apart, shortestRelative_eq, if_neg filled]

theorem commonLength_of_nested (nested : Nested a b) :
    commonLength a b = min a.length b.length := by
  have left := commonLength_le_left a b
  have right := commonLength_le_right a b
  rcases nested with starts | starts
  · rw [prefix_iff_commonLength] at starts
    omega
  · rw [prefix_iff_commonLength, commonLength_comm] at starts
    omega

theorem length_segments_underRelative (rel name : String) :
    (ofString rel).segments.length + (ofString name).segments.length ≤
        (ofString (underRelative rel name)).segments.length ∧
      (ofString (underRelative rel name)).segments.length ≤
        (ofString rel).segments.length + (ofString name).segments.length + 1 := by
  obtain ⟨front, segments, led⟩ := segments_underRelative rel name
  rw [segments, List.length_cons, List.length_append]
  rcases led with same | cut | ⟨dot, none⟩
  · rw [same]
    omega
  · rw [cut, List.length_append, List.length_singleton]
    omega
  · rw [dot, none, segments_dot, List.length_nil, List.length_singleton]
    omega

/-- Where one directory's segments begin the other's, the way up to the root and down again is
    longer by all the segments that the two share, and they share the two of the root at least. -/
theorem length_segments_of_nested {a b : Location} (hb : ∀ s ∈ b, PlainName s)
    (nested : Nested a.segments b.segments) :
    (ofString (shortestRelative a.segments b.segments)).segments.length + 2 <
      (ofString (legacyRelative a.segments b.segments)).segments.length := by
  have left := two_le_length_segments a
  have right := two_le_length_segments b
  have common := commonLength_of_nested nested
  have up : (ofString (legacyRelative a.segments b.segments)).segments.length =
      a.segments.length + b.segments.length := by
    rw [segments_legacyRelative hb, divergence_of_nested nested, length_via]
    omega
  rw [up, segments_shortestRelative hb]
  split
  · rw [List.length_singleton]
    omega
  · rw [length_via, common]
    omega

/-- The two styles write the same relative path, and the same link target to any certificate,
    exactly if neither directory's segments begin the other's. The root, of two empty segments,
    begins no other directory. -/
theorem styles_agree_iff (cwd : Location) (start goal : Path) :
    (relative .legacy cwd start goal = relative .shortest cwd start goal ↔
      ¬ Nested (start.absolutize cwd).segments (goal.absolutize cwd).segments) ∧
    ∀ certName, (linkTarget .legacy cwd start goal certName =
        linkTarget .shortest cwd start goal certName ↔
      ¬ Nested (start.absolutize cwd).segments (goal.absolutize cwd).segments) := by
  rw [segments_absolutize, segments_absolutize]
  have agree (apart : ¬ Nested (start.absolute cwd).segments (goal.absolute cwd).segments) :
      relative .legacy cwd start goal = relative .shortest cwd start goal := by
    unfold relative
    exact legacyRelative_of_apart apart
  have longer (nested : Nested (start.absolute cwd).segments (goal.absolute cwd).segments) :
      (ofString (relative .shortest cwd start goal)).segments.length + 2 <
        (ofString (relative .legacy cwd start goal)).segments.length := by
    unfold relative
    exact length_segments_of_nested (fun _ => plainName_of_mem_absolute) nested
  constructor
  · constructor
    · intro same nested
      have apart := longer nested
      rw [same] at apart
      omega
    · exact agree
  · intro certName
    constructor
    · intro same nested
      have apart := longer nested
      have legacy := (length_segments_underRelative (relative .legacy cwd start goal) certName).1
      have shortest := (length_segments_underRelative (relative .shortest cwd start goal) certName).2
      rw [linkTarget, linkTarget] at same
      rw [same] at legacy
      omega
    · intro apart
      rw [linkTarget, agree apart]
      rfl

example : relative .legacy [] ⟨"/"⟩ ⟨"/x"⟩ = "../x" ∧ relative .shortest [] ⟨"/"⟩ ⟨"/x"⟩ = "../x" := by
  decide +kernel

end NetworkCa.Path
