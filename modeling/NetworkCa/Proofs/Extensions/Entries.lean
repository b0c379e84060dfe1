import NetworkCa.Extensions.Reader
import NetworkCa.Proofs.Text.Split

namespace NetworkCa.LeafExtensions

open Text (before trim splitOnce splitOnce_eq_none dropPrefix?_eq_some
  dropSuffix?_eq_some)

variable {c raw heading name : List Char} {cs ls : List (List Char)} {number : Nat}

def content (raw : List Char) : List Char := trim (before '#' raw)

/-- Neither blank, nor a header, nor a setting. -/
def Bad (c : List Char) : Prop := c ≠ [] ∧ (∀ inner, c ≠ '[' :: inner ++ [']']) ∧ '=' ∉ c

def settingIn? (heading c : List Char) : Option Setting :=
  match headerName? c with
  | some _ => none
  | none => (splitOnce '=' c).map fun (key, value) => ⟨heading, trim key, trim value⟩

theorem headerName?_eq_some :
    headerName? c = some name ↔ ∃ inner, c = '[' :: inner ++ [']'] ∧ name = trim inner := by
  simp only [headerName?, Option.bind_eq_bind, Option.bind_eq_some_iff, dropPrefix?_eq_some,
    dropSuffix?_eq_some, Option.pure_def, Option.some.injEq]
  constructor
  · rintro ⟨_, rfl, inner, rfl, rfl⟩
    exact ⟨inner, rfl, rfl⟩
  · rintro ⟨inner, rfl, rfl⟩
    exact ⟨_, rfl, inner, rfl, rfl⟩

theorem headerName?_eq_none : headerName? c = none ↔ ∀ inner, c ≠ '[' :: inner ++ [']'] := by
  rw [Option.eq_none_iff_forall_ne_some]
  constructor
  · intro none inner same
    exact none _ (headerName?_eq_some.2 ⟨inner, same, rfl⟩)
  · intro none name some
    obtain ⟨inner, same, _⟩ := headerName?_eq_some.1 some
    exact none inner same

theorem bad_iff : Bad c ↔ c ≠ [] ∧ headerName? c = none ∧ splitOnce '=' c = none := by
  rw [Bad, headerName?_eq_none, splitOnce_eq_none]

instance (c : List Char) : Decidable (Bad c) := decidable_of_iff' _ bad_iff

/-- Blank lines add nothing to the settings of the lines below them, headers say what section these
    are in, and any other line adds its entry. -/
theorem settings_cons (sound : ¬Bad (content raw)) (rest : List (List Char)) :
    settings heading number (raw :: rest) =
      (settings ((headerName? (content raw)).getD heading) (number + 1) rest).map
        ((settingIn? heading (content raw)).toList ++ ·) := by
  have unchanged (r : Except ExtensionError (List Setting)) : r.map ([] ++ ·) = r := by
    cases r <;> rfl
  rw [settings, Line.read, ← content]
  by_cases blank : content raw = []
  · rw [blank]
    exact (unchanged _).symm
  rw [if_neg (by simpa using blank)]
  rcases header : headerName? (content raw) with _ | name
  · rcases cut : splitOnce '=' (content raw) with _ | ⟨key, value⟩
    · exact absurd (bad_iff.2 ⟨blank, header, cut⟩) sound
    · rw [settingIn?, header, cut]
      rfl
  · rw [settingIn?, header]
    exact (unchanged _).symm

theorem settings_bad (bad : Bad (content raw)) (rest : List (List Char)) :
    settings heading number (raw :: rest) = .error (.badLine number (String.ofList raw)) := by
  obtain ⟨full, headerless, uncut⟩ := bad_iff.1 bad
  rw [settings, Line.read, ← content, if_neg (by simpa using full), headerless, uncut]

/-- The section that the line at a place belongs to: that of the last header above it. -/
def headingAt (heading : List Char) (cs : List (List Char)) (n : Nat) : List Char :=
  ((cs.take n).filterMap headerName?).getLast?.getD heading

def entriesFrom (heading : List Char) (cs : List (List Char)) : List Setting :=
  cs.zipIdx.filterMap fun (c, n) => settingIn? (headingAt heading cs n) c

theorem headingAt_cons (heading c : List Char) (cs : List (List Char)) (n : Nat) :
    headingAt heading (c :: cs) (n + 1) = headingAt ((headerName? c).getD heading) cs n := by
  rw [headingAt, headingAt, List.take_succ_cons]
  rcases header : headerName? c with _ | name
  · rw [List.filterMap_cons_none header]
    rfl
  · rw [List.filterMap_cons_some header, List.getLast?_cons]
    rfl

theorem entriesFrom_cons (heading c : List Char) (cs : List (List Char)) :
    entriesFrom heading (c :: cs) =
      (settingIn? heading c).toList ++ entriesFrom ((headerName? c).getD heading) cs := by
  have below :
      (cs.zipIdx 1).filterMap (fun (c', n) => settingIn? (headingAt heading (c :: cs) n) c') =
        entriesFrom ((headerName? c).getD heading) cs := by
    rw [entriesFrom, List.zipIdx_succ, List.filterMap_map]
    congr 1
    funext ⟨c', n⟩
    simp only [Function.comp, headingAt_cons]
  have here : headingAt heading (c :: cs) 0 = heading := rfl
  rw [entriesFrom, List.zipIdx_cons, List.filterMap_cons, below]
  dsimp only
  rw [here]
  cases settingIn? heading c <;> rfl

def contents (ls : List (List Char)) : List (List Char) := (ls.map content).filter (· ≠ [])

theorem entriesFrom_contents_cons (heading raw : List Char) (ls : List (List Char)) :
    entriesFrom heading (contents (raw :: ls)) = (settingIn? heading (content raw)).toList ++
      entriesFrom ((headerName? (content raw)).getD heading) (contents ls) := by
  rw [contents, List.map_cons]
  by_cases blank : content raw = []
  · rw [List.filter_cons_of_neg (by simp [blank]), blank]
    rfl
  · rw [List.filter_cons_of_pos (by simpa using blank), entriesFrom_cons]
    rfl

theorem settings_of_sound (sound : ∀ raw ∈ ls, ¬Bad (content raw)) :
    settings heading number ls = .ok (entriesFrom heading (contents ls)) := by
  induction ls generalizing heading number with
  | nil => rfl
  | cons raw rest ih =>
    rw [settings_cons (sound raw List.mem_cons_self), entriesFrom_contents_cons,
      ih fun raw' later => sound raw' (List.mem_cons_of_mem _ later)]
    rfl

theorem settings_of_bad {above below : List (List Char)} (bad : Bad (content raw))
    (first : ∀ raw' ∈ above, ¬Bad (content raw')) :
    settings heading number (above ++ raw :: below) =
      .error (.badLine (number + above.length) (String.ofList raw)) := by
  induction above generalizing heading number with
  | nil => exact settings_bad bad below
  | cons raw' rest ih =>
    rw [List.cons_append, settings_cons (first raw' List.mem_cons_self),
      ih fun raw'' later => first raw'' (List.mem_cons_of_mem _ later), List.length_cons,
      Nat.add_right_comm number 1, Nat.add_assoc]
    rfl

def entries (text : String) : List Setting := entriesFrom [] (contents (Text.lines text.toList))

def Sound (text : String) : Prop := ∀ raw ∈ Text.lines text.toList, ¬Bad (content raw)

instance (text : String) : Decidable (Sound text) := inferInstanceAs (Decidable (∀ _ ∈ _, _))

theorem sound_iff {text : String} :
    Sound text ↔ ∀ c ∈ contents (Text.lines text.toList), ¬Bad c := by
  constructor
  · intro sound c member
    obtain ⟨raw, line, rfl⟩ := List.mem_map.1 (List.mem_filter.1 member).1
    exact sound raw line
  · intro sound raw line bad
    apply sound (content raw) (List.mem_filter.2 ⟨List.mem_map_of_mem line, ?_⟩) bad
    simpa using bad.1

end NetworkCa.LeafExtensions
