import NetworkCa.Proofs.Path.Segments
import NetworkCa.Topology.Basic

namespace NetworkCa

namespace Path

variable {p q r : Path}

/-- The text of a directory together with what divides it from the names behind it. -/
def lead (p : Path) : String :=
  match p.text.toList.getLast? with
  | none => ""
  | some '/' => p.text
  | some _ => p.text ++ "/"

theorem join_of_absolute (p : Path) (absolute : q.isAbsolute = true) : p.join q = q := by
  rw [join, if_pos absolute]

theorem join_of_relative (p : Path) (relative : q.isAbsolute = false) :
    p.join q = ⟨p.lead ++ q.text⟩ := by
  rw [join, if_neg (by simp [relative]), lead]
  rcases p.text.toList.getLast? with _ | c
  · simp
  · by_cases slash : c = '/'
    · subst slash
      rfl
    · simp

theorem lead_empty : lead ⟨""⟩ = "" := rfl

theorem lead_of_slash (s : String) : lead ⟨s ++ "/"⟩ = s ++ "/" := by
  simp [lead]

theorem lead_append (s : String) (nonempty : q.text ≠ "") : lead ⟨s ++ q.text⟩ = s ++ q.lead := by
  have last : (s ++ q.text).toList.getLast? = q.text.toList.getLast? := by
    have some : q.text.toList ≠ [] := by simpa using nonempty
    rw [String.toList_append, List.getLast?_append, List.getLast?_eq_some_getLast some,
      Option.some_or]
  rw [lead, lead, last]
  split
  · next none => exact absurd (by simpa using none) nonempty
  · rfl
  · rw [String.append_assoc]

theorem lead_lead (p : Path) : lead ⟨p.lead⟩ = p.lead := by
  rw [lead.eq_def p]
  split
  · rfl
  · next slash =>
    obtain ⟨front, text⟩ := eq_append_slash slash
    rw [text, lead_of_slash]
  · exact lead_of_slash p.text

theorem lead_join (p : Path) (relative : q.isAbsolute = false) :
    (p.join q).lead = p.lead ++ q.lead := by
  rw [join_of_relative p relative]
  by_cases empty : q.text = ""
  · obtain rfl : q = ⟨""⟩ := congrArg Path.mk empty
    rw [lead_empty, String.append_empty, lead_lead]
  · exact lead_append p.lead empty

/-- It does not matter which of two joins comes first, whatever of the three paths is absolute,
    empty or ends in a slash. -/
theorem join_assoc (p q r : Path) : (p.join q).join r = p.join (q.join r) := by
  by_cases absolute : r.isAbsolute = true
  · rw [join_of_absolute _ absolute, join_of_absolute _ absolute, join_of_absolute _ absolute]
  have relative : r.isAbsolute = false := by simpa using absolute
  by_cases absolute' : q.isAbsolute = true
  · have whole : (q.join r).isAbsolute = true := by rw [isAbsolute_join q relative, absolute']
    rw [join_of_absolute p absolute', join_of_absolute p whole]
  · have relative' : q.isAbsolute = false := by simpa using absolute'
    have whole : (q.join r).isAbsolute = false := by rw [isAbsolute_join q relative, relative']
    rw [join_of_relative _ relative, join_of_relative p whole, lead_join p relative',
      join_of_relative q relative, String.append_assoc]

end Path

namespace Topology

variable {t : Topology} {root root' : Path} {start : String}

def Starts (start : String) (i : Identity) : Bool := start.toList.isPrefixOf i.dir.text.toList

theorem rooted_rooted (t : Topology) (root root' : Path) :
    (t.rooted root).rooted root' = t.rooted (root'.join root) := by
  have each (i : Identity) : (i.rooted root).rooted root' = i.rooted (root'.join root) := by
    simp only [Identity.rooted, Path.join_assoc]
  simp only [rooted, List.map_map, Topology.mk.injEq]
  exact List.map_congr_left fun i _ => each i

theorem starts_rooted {i : Identity} (relative : i.dir.isAbsolute = false)
    (relative' : (Path.ofString start).isAbsolute = false) (root : Path) :
    Starts (root.join ⟨start⟩).text (i.rooted root) = Starts start i := by
  have dir : (i.rooted root).dir.text = root.lead ++ i.dir.text :=
    congrArg Path.text (Path.join_of_relative root relative)
  have front : (root.join ⟨start⟩).text = root.lead ++ start :=
    congrArg Path.text (Path.join_of_relative root relative')
  rw [Bool.eq_iff_iff, Starts, Starts, dir, front, List.isPrefixOf_iff_prefix,
    List.isPrefixOf_iff_prefix, String.toList_append, String.toList_append,
    List.prefix_append_right_inj]

theorem environment_rooted (relative : ∀ i ∈ t.identities, i.dir.isAbsolute = false)
    (relative' : (Path.ofString start).isAbsolute = false) (root : Path) :
    (t.environment start).rooted root =
      (t.rooted root).environment (root.join ⟨start⟩).text := by
  have same : t.identities.filter (Starts start) =
      t.identities.filter (Starts (root.join ⟨start⟩).text ∘ (·.rooted root)) :=
    List.filter_congr fun i hi => (starts_rooted (relative i hi) relative' root).symm
  have whole : (t.rooted root).environment (root.join ⟨start⟩).text =
      ⟨(t.identities.filter (Starts (root.join ⟨start⟩).text ∘ (·.rooted root))).map
        (·.rooted root)⟩ := congrArg Topology.mk List.filter_map
  rw [whole, ← same]
  rfl

def labels (t : Topology) : List (Role × String × String) :=
  t.identities.map fun i => (i.role, i.name, i.caLink)

@[simp] theorem labels_rooted (t : Topology) (root : Path) : (t.rooted root).labels = t.labels := by
  simp [labels, rooted, Identity.rooted]

/-- Two roots are one, and a topology of relative directories may be rooted before or after an
    environment is selected from it. -/
theorem rooted_selection (t : Topology) (root root' : Path) :
    (t.rooted root).rooted root' = t.rooted (root'.join root) ∧
      (t.rooted root).labels = t.labels ∧
      ((∀ i ∈ t.identities, i.dir.isAbsolute = false) → ∀ start,
        (Path.ofString start).isAbsolute = false →
          (t.environment start).rooted root =
              (t.rooted root).environment (root.join ⟨start⟩).text ∧
            ((t.rooted root).environment (root.join ⟨start⟩).text).labels =
              (t.environment start).labels) := by
  refine ⟨rooted_rooted t root root', labels_rooted t root, fun relative start relative' => ?_⟩
  have same := environment_rooted relative relative' root
  exact ⟨same, by rw [← same, labels_rooted]⟩

theorem rooted_selection_of_builtin :
    (∀ i ∈ builtin.identities, i.dir.isAbsolute = false) ∧
      (Path.ofString "env/raft/.").isAbsolute = false ∧
      (builtin.rooted ⟨"/srv"⟩).rooted ⟨"../.."⟩ = builtin.rooted ⟨"/srv"⟩ ∧
      (builtin.environment "env/raft/.").rooted ⟨"/srv"⟩ =
        (builtin.rooted ⟨"/srv"⟩).environment "/srv/env/raft/." := by
  have relative : ∀ i ∈ builtin.identities, i.dir.isAbsolute = false := by decide +kernel
  have relative' : (Path.ofString "env/raft/.").isAbsolute = false := by decide
  obtain ⟨roots, _, selected⟩ := rooted_selection builtin ⟨"/srv"⟩ ⟨"../.."⟩
  exact ⟨relative, relative', roots, (selected relative "env/raft/." relative').1⟩

end Topology

end NetworkCa
