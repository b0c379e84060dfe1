import NetworkCa.Proofs.Path.LinkSteps

namespace NetworkCa.Path

variable {a b l : Location} {target : String}

def moves (target : String) : List String := (ofString target).steps.filter (· ≠ ".")

/-- The fewest moves from one place to another: up to the last directory that both are in, and down. -/
def distance (a b : Location) : Nat :=
  (a.length - commonLength a b) + (b.length - commonLength a b)

theorem distance_self (b : Location) : distance b b = 0 := by
  have whole : commonLength b b = b.length := prefix_iff_commonLength.1 (List.prefix_refl b)
  rw [distance, whole]
  omega

theorem commonLength_concat (a b : List String) (s : String) :
    commonLength a b ≤ commonLength (a ++ [s]) b ∧
      commonLength (a ++ [s]) b ≤ commonLength a b + 1 := by
  induction a generalizing b with
  | nil =>
    have bound := commonLength_le_left [s] b
    rw [List.length_singleton] at bound
    simpa using bound
  | cons x a ih =>
    cases b with
    | nil => simp
    | cons y b =>
      rw [List.cons_append, commonLength_cons, commonLength_cons]
      by_cases same : x = y
      · have inner := ih b
        rw [if_pos same, if_pos same]
        omega
      · simp [same]

theorem distance_le_follow (l b : Location) (s : String) :
    distance l b ≤ distance (follow l s) b + 1 := by
  rw [follow]
  split
  · omega
  split
  · obtain rfl | ⟨front, last, rfl⟩ := List.eq_nil_or_concat l
    · exact Nat.le_succ _
    · have shared := (commonLength_concat front b last).1
      have up : Location.parent (front ++ [last]) = front := List.dropLast_concat
      rw [List.concat_eq_append, up, distance, distance, List.length_append, List.length_singleton]
      omega
  · have shared := (commonLength_concat l b s).2
    have inside := commonLength_le_left l b
    rw [distance, distance, List.length_append, List.length_singleton]
    omega

theorem foldl_follow_filter {keep : String → Bool} (stays : ∀ s, keep s = false → s = "" ∨ s = ".")
    (parts : List String) (l : Location) :
    (parts.filter keep).foldl follow l = parts.foldl follow l := by
  induction parts generalizing l with
  | nil => rfl
  | cons s parts ih =>
    by_cases kept : keep s = true
    · rw [List.filter_cons_of_pos kept, List.foldl_cons, List.foldl_cons, ih]
    · have stay : follow l s = l := by rw [follow, if_pos (stays s (by simpa using kept))]
      rw [List.filter_cons_of_neg kept, ih, List.foldl_cons, stay]

theorem foldl_follow_moves (l : Location) (target : String) :
    (moves target).foldl follow l = resolve l target := by
  rw [moves, foldl_follow_filter (by simp), steps, foldl_follow_filter (by simp)]
  rfl

theorem distance_le_foldl (parts : List String) (a : Location) :
    distance a b ≤ parts.length + distance (parts.foldl follow a) b := by
  induction parts generalizing a with
  | nil => simp
  | cons s parts ih =>
    have first := distance_le_follow a b s
    have rest := ih (follow a s)
    rw [List.foldl_cons, List.length_cons]
    omega

/-- Whatever way a relative path takes, it makes as many moves as the places are apart. -/
theorem distance_le_moves (reaches : resolve a target = b) :
    distance a b ≤ (moves target).length := by
  have bound := distance_le_foldl (b := b) (moves target) a
  rwa [foldl_follow_moves, reaches, distance_self, Nat.add_zero] at bound

/-- The move up that a path from the root to a place below it makes in vain. -/
def detour (a b : Location) : Nat := if a = [] ∧ b ≠ [] then 1 else 0

section Plain

variable (ha : ∀ s ∈ a, PlainName s) (hb : ∀ s ∈ b, PlainName s)

include hb

theorem moves_names (some : b ≠ []) : moves ("/".intercalate b) = b := by
  have undotted : b.filter (· ≠ "") = b ∧ b.filter (· ≠ ".") = b := by
    rw [List.filter_eq_self, List.filter_eq_self]
    exact ⟨fun s hs => by simpa using (hb s hs).ne_empty,
      fun s hs => by simpa using (hb s hs).ne_current⟩
  rw [moves, steps, segments_intercalate some fun s hs => (hb s hs).no_slash, undotted.1, undotted.2]

theorem moves_via (d : Nat) :
    ((via a.segments b.segments d).filter (· ≠ "")).filter (· ≠ ".") =
      List.replicate (a.segments.length - d) ".." ++ b.drop (d - 1) := by
  have undotted : (b.drop (d - 1)).filter (· ≠ ".") = b.drop (d - 1) := by
    rw [List.filter_eq_self]
    exact fun s hs => by simpa using (hb s (List.mem_of_mem_drop hs)).ne_current
  rw [via, List.filter_append, filter_drop_segments hb, List.filter_append, undotted]
  simp

include ha

theorem commonLength_segments :
    commonLength a.segments b.segments =
      if a = [] ∧ b = [] then 2 else commonLength a b + 1 := by
  cases a with
  | nil =>
    cases b with
    | nil => rfl
    | cons s rest =>
      have named := (hb s (by simp)).ne_empty
      simp [Location.segments, commonLength_cons, Ne.symm named]
  | cons s rest =>
    cases b with
    | nil =>
      have named := (ha s (by simp)).ne_empty
      simp [Location.segments, commonLength_cons, named]
    | cons r more => simp [Location.segments, commonLength_cons]

theorem moves_shortest :
    moves (shortestRelative a.segments b.segments) =
      List.replicate (a.length - commonLength a b + detour a b) ".." ++
        b.drop (commonLength a b) := by
  have all : moves (shortestRelative a.segments b.segments) =
      List.replicate (a.segments.length - commonLength a.segments b.segments) ".." ++
        b.drop (commonLength a.segments b.segments - 1) := by
    rw [← moves_via hb, moves, steps, segments_shortestRelative hb]
    split
    · next none => rw [none]; rfl
    · rfl
  rw [all, commonLength_segments ha hb, detour]
  cases a with
  | nil => cases b <;> simp [Location.segments]
  | cons s rest => simp [Location.segments]

theorem length_moves_shortest :
    (moves (shortestRelative a.segments b.segments)).length = distance a b + detour a b := by
  rw [moves_shortest ha hb, List.length_append, List.length_replicate, List.length_drop, distance]
  omega

theorem shortestRelative_eq_dot_iff : shortestRelative a.segments b.segments = "." ↔ a = b := by
  constructor
  · intro dot
    have resolved := resolve_shortestRelative ha hb
    rw [dot, resolve, segments_dot] at resolved
    simpa [follow] using resolved
  · intro same
    have whole : commonLength b.segments b.segments = b.segments.length :=
      prefix_iff_commonLength.1 (List.prefix_refl _)
    have none : via b.segments b.segments b.segments.length = [] := by simp [via]
    rw [same, shortestRelative_eq, whole, if_pos none]

/-- A relative path from `a` to `b` with no move in vain: down only or up only where one of the two
    contains the other, and a dot where they are the same. -/
structure Shortest (a b : Location) (target : String) : Prop where
  resolves : resolve a target = b
  least : ∀ other, (ofString other).isAbsolute = false → resolve a other = b →
    (moves target).length ≤ (moves other).length
  descends : a <+: b → ∀ s ∈ moves target, s ≠ ".."
  ascends : b <+: a → ∀ s ∈ moves target, s = ".."
  dot_iff : target = "." ↔ a = b

theorem shortest_of_straight (straight : a = [] → b = []) :
    Shortest a b (shortestRelative a.segments b.segments) := by
  have level : detour a b = 0 := if_neg fun away => away.2 (straight away.1)
  have all := moves_shortest ha hb
  rw [level, Nat.add_zero] at all
  refine ⟨resolve_shortestRelative ha hb, fun other _ reaches => ?_, fun inside s hs => ?_,
    fun outside s hs => ?_, shortestRelative_eq_dot_iff ha hb⟩
  · rw [length_moves_shortest ha hb, level, Nat.add_zero]
    exact distance_le_moves reaches
  · rw [all, prefix_iff_commonLength.1 inside, Nat.sub_self, List.replicate_zero,
      List.nil_append] at hs
    exact (hb s (List.mem_of_mem_drop hs)).ne_parent
  · rw [commonLength_comm, prefix_iff_commonLength.1 outside, List.drop_length,
      List.append_nil] at all
    rw [all] at hs
    exact List.eq_of_mem_replicate hs

end Plain

/-- The shortest style writes a shortest path, except from the root to any other place: there it
    starts with a move up, which leads nowhere, before the names that would do alone. -/
theorem relative_shortest_iff (cwd : Location) (start goal : Path) :
    (Shortest (start.absolutize cwd).steps (goal.absolutize cwd).steps
        (relative .shortest cwd start goal) ↔
      ((start.absolutize cwd).steps = [] → (goal.absolutize cwd).steps = [])) ∧
    ((start.absolutize cwd).steps = [] → (goal.absolutize cwd).steps ≠ [] →
      resolve [] (relative .shortest cwd start goal) = (goal.absolutize cwd).steps ∧
      moves (relative .shortest cwd start goal) = ".." :: (goal.absolutize cwd).steps ∧
      ∃ names, (ofString names).isAbsolute = false ∧
        resolve [] names = (goal.absolutize cwd).steps ∧
        moves names = (goal.absolutize cwd).steps) := by
  have ha : ∀ s ∈ start.absolute cwd, PlainName s := fun _ => plainName_of_mem_absolute
  have hb : ∀ s ∈ goal.absolute cwd, PlainName s := fun _ => plainName_of_mem_absolute
  rw [steps_absolutize, steps_absolutize]
  have fromRoot (root : start.absolute cwd = []) (away : goal.absolute cwd ≠ []) :
      moves (relative .shortest cwd start goal) = ".." :: goal.absolute cwd := by
    have all := moves_shortest ha hb
    rw [detour, if_pos ⟨root, away⟩] at all
    unfold relative
    rw [all, root]
    rfl
  constructor
  · refine ⟨fun shortest root => Classical.byContradiction fun away => ?_,
      shortest_of_straight ha hb⟩
    have down := shortest.descends (root ▸ List.nil_prefix) ".."
    rw [fromRoot root away] at down
    exact down List.mem_cons_self rfl
  · intro root away
    have reached := resolve_relative .shortest cwd start goal
    rw [root] at reached
    refine ⟨reached, fromRoot root away, "/".intercalate (goal.absolute cwd),
      isAbsolute_intercalate fun s hs => ⟨(hb s hs).ne_empty, (hb s hs).no_slash⟩, ?_,
      moves_names hb away⟩
    rw [← foldl_follow_moves, moves_names hb away, foldl_follow_names hb, List.nil_append]

/-- One place up and down into another, and the root, from which the move up is too much. -/
theorem relative_shortest_of_root :
    Shortest ["net", "peers"] ["net", "CA"]
        (relative .shortest ["net"] ⟨"peers/"⟩ ⟨"./x/../CA"⟩) ∧
      relative .shortest [] ⟨"/"⟩ ⟨"/CA"⟩ = "../CA" ∧
      ¬ Shortest [] ["CA"] (relative .shortest [] ⟨"/"⟩ ⟨"/CA"⟩) := by
  have peers : ((⟨"peers/"⟩ : Path).absolutize ["net"]).steps = ["net", "peers"] := by decide +kernel
  have ca : ((⟨"./x/../CA"⟩ : Path).absolutize ["net"]).steps = ["net", "CA"] := by decide +kernel
  have root : ((⟨"/"⟩ : Path).absolutize []).steps = [] := by decide +kernel
  have below : ((⟨"/CA"⟩ : Path).absolutize []).steps = ["CA"] := by decide +kernel
  have siblings := (relative_shortest_iff ["net"] ⟨"peers/"⟩ ⟨"./x/../CA"⟩).1
  have fromRoot := (relative_shortest_iff [] ⟨"/"⟩ ⟨"/CA"⟩).1
  rw [peers, ca] at siblings
  rw [root, below] at fromRoot
  refine ⟨siblings.2 (by simp), by decide +kernel, fun shortest => ?_⟩
  exact absurd (fromRoot.1 shortest rfl) (by simp)

end NetworkCa.Path
