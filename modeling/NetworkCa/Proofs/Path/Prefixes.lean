import NetworkCa.Path.Relative

namespace NetworkCa.Path

variable {a b : List String}

def Nested (a b : List String) : Prop := a <+: b ∨ b <+: a

instance (a b : List String) : Decidable (Nested a b) := inferInstanceAs (Decidable (_ ∨ _))

theorem nested_append (front : List String) : Nested (front ++ a) (front ++ b) ↔ Nested a b := by
  rw [Nested, List.prefix_append_right_inj, List.prefix_append_right_inj, Nested]

theorem nested_cons {x y : String} : Nested (x :: a) (y :: b) ↔ x = y ∧ Nested a b := by
  rw [Nested, List.cons_prefix_cons, List.cons_prefix_cons, eq_comm (a := y), ← and_or_left, Nested]

@[simp] theorem commonLength_nil_left (b : List String) : commonLength [] b = 0 := rfl

@[simp] theorem commonLength_nil_right (a : List String) : commonLength a [] = 0 := by
  cases a <;> rfl

theorem commonLength_cons (x y : String) (a b : List String) :
    commonLength (x :: a) (y :: b) = if x = y then commonLength a b + 1 else 0 := by
  by_cases same : x = y <;> simp [commonLength, same]

theorem commonLength_append (front : List String) :
    commonLength (front ++ a) (front ++ b) = front.length + commonLength a b := by
  induction front with
  | nil => simp
  | cons x front ih =>
    rw [List.cons_append, List.cons_append, commonLength_cons, if_pos rfl, ih, List.length_cons]
    omega

theorem commonLength_comm (a b : List String) : commonLength a b = commonLength b a := by
  induction a generalizing b with
  | nil => simp
  | cons x a ih =>
    cases b with
    | nil => simp
    | cons y b => simp only [commonLength_cons, eq_comm (a := x), ih b]

theorem take_commonLength (a b : List String) :
    commonLength a b ≤ a.length ∧ a.take (commonLength a b) = b.take (commonLength a b) := by
  induction a generalizing b with
  | nil => simp
  | cons x a ih =>
    cases b with
    | nil => simp
    | cons y b =>
      by_cases same : x = y
      · have tail := ih b
        rw [commonLength_cons, if_pos same]
        exact ⟨by simpa using tail.1, by simp [same, tail.2]⟩
      · rw [commonLength_cons, if_neg same]
        exact ⟨Nat.zero_le _, rfl⟩

theorem commonLength_le_left (a b : List String) : commonLength a b ≤ a.length :=
  (take_commonLength a b).1

theorem commonLength_le_right (a b : List String) : commonLength a b ≤ b.length :=
  commonLength_comm a b ▸ commonLength_le_left b a

theorem prefix_iff_commonLength : a <+: b ↔ commonLength a b = a.length := by
  constructor
  · intro starts
    obtain ⟨rest, rfl⟩ := starts
    have whole := commonLength_append (a := []) (b := rest) a
    simpa using whole
  · intro whole
    have same := (take_commonLength a b).2
    rw [whole, List.take_length] at same
    exact List.prefix_iff_eq_take.2 same

/-- The first difference of two lists comes right behind what they share. -/
theorem findIdx?_zip (a b : List String) :
    ((a.zip b).findIdx? fun (x, y) => x ≠ y) =
      if Nested a b then none else some (commonLength a b) := by
  induction a generalizing b with
  | nil => simp [Nested]
  | cons x a ih =>
    cases b with
    | nil => simp [Nested]
    | cons y b =>
      rw [List.zip_cons_cons, List.findIdx?_cons, ih, commonLength_cons]
      by_cases same : x = y
      · by_cases nested : Nested a b <;> simp [nested_cons, same, nested]
      · simp [nested_cons, same]

theorem divergence_of_nested (nested : Nested a b) : divergence a b = 0 := by
  rw [divergence, findIdx?_zip, if_pos nested]
  rfl

theorem divergence_of_apart (apart : ¬ Nested a b) : divergence a b = commonLength a b := by
  rw [divergence, findIdx?_zip, if_neg apart]
  rfl

theorem take_divergence (a b : List String) :
    divergence a b ≤ a.length ∧ a.take (divergence a b) = b.take (divergence a b) := by
  by_cases nested : Nested a b
  · rw [divergence_of_nested nested]
    exact ⟨Nat.zero_le _, rfl⟩
  · rw [divergence_of_apart nested]
    exact take_commonLength a b

theorem commonLength_lt_of_apart (apart : ¬ Nested a b) :
    commonLength a b < a.length ∧ commonLength a b < b.length := by
  rw [Nested, prefix_iff_commonLength, prefix_iff_commonLength, commonLength_comm b a] at apart
  have left := commonLength_le_left a b
  have right := commonLength_le_right a b
  omega

/-- Up from `a` to its first `d` segments, and from there down to `b`. -/
def via (a b : List String) (d : Nat) : List String :=
  List.replicate (a.length - d) ".." ++ b.drop d

@[simp] theorem length_via (a b : List String) (d : Nat) :
    (via a b d).length = (a.length - d) + (b.length - d) := by simp [via]

theorem via_append (front : List String) (d : Nat) :
    via (front ++ a) (front ++ b) (front.length + d) = via a b d := by
  rw [via, List.drop_length_add_append, List.length_append, Nat.add_sub_add_left, via]

theorem intercalate_climb {parts : List String} (some : parts ≠ []) (k : Nat) :
    "/".intercalate (List.replicate k ".." ++ parts) =
      String.join (List.replicate k "../") ++ "/".intercalate parts := by
  induction k with
  | zero => simp
  | succ k ih =>
    have more : List.replicate k ".." ++ parts ≠ [] := by simp [some]
    rw [List.replicate_succ, List.cons_append, String.intercalate_cons_of_ne_nil more, ih,
      List.replicate_succ, String.join_cons, String.append_assoc]
    rfl

theorem drop_divergence_ne_nil (some : b ≠ []) : b.drop (divergence a b) ≠ [] := by
  by_cases nested : Nested a b
  · rw [divergence_of_nested nested]
    exact some
  · have shorter := (commonLength_lt_of_apart nested).2
    rw [divergence_of_apart nested, ← List.length_pos_iff, List.length_drop]
    omega

theorem legacyRelative_eq (some : b ≠ []) :
    legacyRelative a b = "/".intercalate (via a b (divergence a b)) := by
  rw [via, intercalate_climb (drop_divergence_ne_nil some)]
  rfl

theorem shortestRelative_eq (a b : List String) :
    shortestRelative a b =
      if via a b (commonLength a b) = [] then "."
      else "/".intercalate (via a b (commonLength a b)) := by
  rw [shortestRelative, ← via]
  split
  · next none => rw [if_pos none]
  · next some => rw [if_neg some]

end NetworkCa.Path
