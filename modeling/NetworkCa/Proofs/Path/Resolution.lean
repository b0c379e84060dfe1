import NetworkCa.Proofs.Path.Prefixes
import NetworkCa.Proofs.Path.Segments

namespace NetworkCa.Path

/-- One segment further: empty segments and dots stay, two dots go up and stay at the root. -/
def follow (l : Location) (segment : String) : Location :=
  if segment = "" ∨ segment = "." then l
  else if segment = ".." then l.parent
  else l ++ [segment]

def resolve (start : Location) (target : String) : Location :=
  (ofString target).segments.foldl follow start

theorem follow_plain {s : String} (h : PlainName s) (l : Location) : follow l s = l ++ [s] := by
  rw [follow, if_neg (by simp [h.ne_empty, h.ne_current]), if_neg h.ne_parent]

theorem foldl_follow_names {names : List String} (h : ∀ s ∈ names, PlainName s) (l : Location) :
    names.foldl follow l = l ++ names := by
  induction names generalizing l with
  | nil => simp
  | cons s rest ih =>
    rw [List.foldl_cons, follow_plain (h s (by simp)), ih fun r hr => h r (by simp [hr])]
    simp

theorem foldl_follow_parents (l : Location) (k : Nat) :
    (List.replicate k "..").foldl follow l = l.take (l.length - k) := by
  induction k generalizing l with
  | zero => simp
  | succ k ih =>
    have up : follow l ".." = l.take (l.length - 1) := by
      simp [follow, Location.parent, List.dropLast_eq_take]
    rw [List.replicate_succ, List.foldl_cons, ih, up, List.take_take]
    congr 1
    simp only [List.length_take]
    omega

theorem foldl_follow_segments {b : Location} (hb : ∀ s ∈ b, PlainName s) (l : Location) (d : Nat) :
    (b.segments.drop d).foldl follow l = l ++ b.drop (d - 1) := by
  cases b with
  | nil =>
    have stay : follow l "" = l := by simp [follow]
    rcases d with _ | _ | _ | d <;> simp [Location.segments, stay]
  | cons s rest =>
    cases d with
    | zero =>
      have stay : follow l "" = l := by simp [follow]
      simpa [Location.segments, stay] using foldl_follow_names hb l
    | succ d =>
      have names : ∀ r ∈ (s :: rest).drop d, PlainName r :=
        fun r hr => hb r (List.mem_of_mem_drop hr)
      simpa [Location.segments] using foldl_follow_names names l

theorem take_eq_of_segments {a b : Location} (ha : ∀ s ∈ a, PlainName s)
    (hb : ∀ s ∈ b, PlainName s) {d : Nat} (hd : d ≤ a.segments.length)
    (same : a.segments.take d = b.segments.take d) :
    a.take (a.length - (a.segments.length - d)) = b.take (d - 1) := by
  cases d with
  | zero => cases a <;> simp [Location.segments]
  | succ e =>
    cases a with
    | nil =>
      cases b with
      | nil => simp
      | cons s rest =>
        have nonempty := (hb s (by simp)).ne_empty
        cases e with
        | zero => simp
        | succ e => simp [Location.segments, nonempty.symm] at same
    | cons s rest =>
      have nonempty := (ha s (by simp)).ne_empty
      have index : (s :: rest).length - (("" :: s :: rest).length - (e + 1)) = e := by
        simp only [Location.segments, List.length_cons] at hd ⊢
        omega
      cases b with
      | nil =>
        cases e with
        | zero => simp [Location.segments]
        | succ e => simp [Location.segments, nonempty] at same
      | cons r more =>
        simp only [Location.segments, List.take_succ_cons, List.cons.injEq, true_and] at same
        change (s :: rest).take (_ - (("" :: s :: rest).length - (e + 1))) = _
        rw [index, same, Nat.add_sub_cancel]

theorem foldl_follow_climb {a b : Location} (ha : ∀ s ∈ a, PlainName s)
    (hb : ∀ s ∈ b, PlainName s) {d : Nat} (hd : d ≤ a.segments.length)
    (same : a.segments.take d = b.segments.take d) :
    (via a.segments b.segments d).foldl follow a = b := by
  rw [via, List.foldl_append, foldl_follow_parents, foldl_follow_segments hb,
    take_eq_of_segments ha hb hd same, List.take_append_drop]

end NetworkCa.Path
