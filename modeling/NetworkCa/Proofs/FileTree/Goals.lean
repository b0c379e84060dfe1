import NetworkCa.Proofs.FileTree.Ways

namespace NetworkCa.FileTree

variable {t t' t'' : FileTree} {links : Nat} {here : Location} {name : String}
  {names rest : List String} {slash : Bool} {spot : Spot}

def goalOf : Except FileFailure Spot → Option Location
  | .ok (.free place _) => some place
  | .ok (.taken place (.file ..) _) => some place
  | _ => none

/-- The same directories and links: the two trees differ in regular files at most. -/
structure SameWays (t t' : FileTree) : Prop where
  cwd : t'.cwd = t.cwd
  way : ∀ l, t'.way? l = t.way? l

theorem SameWays.refl (t : FileTree) : SameWays t t := ⟨rfl, fun _ => rfl⟩

theorem SameWays.symm (h : SameWays t t') : SameWays t' t := ⟨h.cwd.symm, fun l => (h.way l).symm⟩

theorem SameWays.trans (h : SameWays t t') (h' : SameWays t' t'') : SameWays t t'' :=
  ⟨h'.cwd.trans h.cwd, fun l => (h'.way l).trans (h.way l)⟩

theorem SameWays.keeps (same : SameWays t t') : KeepsWays t t' :=
  ⟨same.cwd, fun l _ way => (same.way l).trans way⟩

theorem move_write_unway (plain : ¬(name = "." ∨ name = ".."))
    (accepted : refusal? .write name rest slash = none)
    (unway : t.way? (here ++ [name]) = none) :
    ∃ result, t.move .write here name rest slash = .halt result ∧
      goalOf result = if rest.isEmpty then some (here ++ [name]) else none := by
  rw [move_accepted plain accepted]
  rcases way?_eq_none.1 unway with entry | ⟨mode, content, entry⟩ <;>
    refine ⟨_, by rw [entry, meet], ?_⟩ <;> cases rest <;> rfl

theorem goalOf_walk (same : SameWays t t') (links : Nat) (here : Location) (names : List String)
    (slash : Bool) :
    goalOf (t'.walk .write links here names slash) =
      goalOf (t.walk .write links here names slash) := by
  induction links, here, names, slash using walk_induction with
  | nil links here slash => rw [walk_nil, walk_nil]
  | cons links here name rest slash ih ihLinks =>
    by_cases unway : ¬(name = "." ∨ name = "..") ∧ refusal? .write name rest slash = none ∧
      t.way? (here ++ [name]) = none
    · -- The walk ends here in both trees, whatever files they have.
      obtain ⟨plain, accepted, unway⟩ := unway
      obtain ⟨result, step, goal⟩ := move_write_unway plain accepted unway
      obtain ⟨result', step', goal'⟩ :=
        move_write_unway plain accepted ((same.way _).trans unway)
      rw [walk_halt step, walk_halt step', goal, goal']
    · have step : t'.move .write here name rest slash = t.move .write here name rest slash := by
        rcases move_cases t .write here name rest slash with
          special | ⟨failure, plain, refused, step⟩ | ⟨plain, accepted, step⟩
        · obtain ⟨directory, step⟩ := move_of_special here special
          rw [step, step]
        · rw [step, move_refused plain refused]
        · rw [step, move_accepted plain accepted]
          cases way : t.way? (here ++ [name]) with
          | none => exact absurd ⟨plain, accepted, way⟩ unway
          | some e => rw [same.keeps.get? way]
      cases h : t.move .write here name rest slash with
      | halt result => rw [walk_halt h, walk_halt (step.trans h)]
      | enter directory =>
        rw [walk_enter h, walk_enter (step.trans h)]
        exact ih directory
      | jump start onto ending =>
        cases links with
        | zero => rw [walk_jump_zero h, walk_jump_zero (step.trans h)]
        | succ fewer =>
          rw [walk_jump_succ h, walk_jump_succ (step.trans h)]
          exact ihLinks fewer rfl start onto ending

theorem move_write_of_present (present : t.get? (here ++ [name]) ≠ none) :
    t.move .write here name rest false = t.move .reach here name rest false := by
  rcases h : t.get? (here ++ [name]) with _ | _ | ⟨mode, content⟩ | target
  · exact absurd h present
  all_goals cases rest <;> simp [move, refusal?, h, meet, arrive, Purpose.follows]

theorem walk_write_of_file {place : Location} {mode : FileMode} {content : Bytes} {ending : Bool}
    (h : t.walk .reach links here names slash = .ok (.taken place (.file mode content) ending)) :
    slash = false ∧ t.walk .write links here names slash =
      .ok (.taken place (.file mode content) ending) := by
  induction links, here, names, slash using walk_induction with
  | nil links here slash =>
    rw [walk_nil] at h
    cases h
  | cons links here name rest slash ih ihLinks =>
    cases step : t.move .reach here name rest slash with
    | halt result =>
      rw [walk_halt step] at h
      subst h
      obtain ⟨rfl, plain, accepted, arrived⟩ := move_halt_ok step
      obtain ⟨samePlace, entry, sameSlash⟩ := arrive_ok arrived
      simp only [Spot.place, Spot.entry?, Spot.slash] at samePlace entry sameSlash
      subst samePlace sameSlash
      cases ending
      · refine ⟨rfl, walk_halt ?_⟩
        rw [move_write_of_present (by simp [← entry]), step]
      · simp [← entry, arrive, Entry.isDirectory] at arrived
    | enter directory =>
      rw [walk_enter step] at h
      obtain ⟨rfl, written⟩ := ih directory h
      exact ⟨rfl, by rw [walk_enter (move_enter_for .write step), written]⟩
    | jump start onto ending' =>
      cases links with
      | zero =>
        rw [walk_jump_zero step] at h
        cases h
      | succ fewer =>
        rw [walk_jump_succ step] at h
        obtain ⟨rfl, written⟩ := ihLinks fewer rfl start onto ending' h
        obtain ⟨_, _, target, entry, onward⟩ := move_jump step
        obtain rfl := unslashed_of_jump onward
        refine ⟨rfl, ?_⟩
        rw [walk_jump_succ, written]
        rw [move_write_of_present (by simp [entry]), step]

theorem walk_reach_of_goal {place : Location} {mode : FileMode} {content : Bytes}
    (goal : goalOf (t.walk .write links here names slash) = some place)
    (file : t.get? place = some (.file mode content)) :
    slash = false ∧ t.walk .reach links here names slash =
      .ok (.taken place (.file mode content) false) := by
  induction links, here, names, slash using walk_induction with
  | nil links here slash =>
    rw [walk_nil] at goal
    cases goal
  | cons links here name rest slash ih ihLinks =>
    cases step : t.move .write here name rest slash with
    | halt result =>
      rw [walk_halt step] at goal
      cases result with
      | error failure => cases goal
      | ok spot =>
        obtain ⟨rfl, plain, accepted, arrived⟩ := move_halt_ok step
        obtain ⟨samePlace, entry, sameSlash⟩ := arrive_ok arrived
        obtain rfl : slash = false := by
          cases slash
          · rfl
          · simp [refusal?] at accepted
        obtain rfl : here ++ [name] = place := by
          rcases spot with ⟨l, _ | ⟨mode', content'⟩ | target, ending⟩ | ⟨l, ending⟩ <;> cases goal
          · exact samePlace.symm
          · exact samePlace.symm
        refine ⟨rfl, walk_halt ?_⟩
        rw [← move_write_of_present (by simp [file]), move_accepted plain accepted, file]
        rfl
    | enter directory =>
      rw [walk_enter step] at goal
      obtain ⟨rfl, reached⟩ := ih directory goal
      exact ⟨rfl, by rw [walk_enter (move_enter_for .reach step), reached]⟩
    | jump start onto ending =>
      cases links with
      | zero =>
        rw [walk_jump_zero step] at goal
        cases goal
      | succ fewer =>
        rw [walk_jump_succ step] at goal
        obtain ⟨rfl, reached⟩ := ihLinks fewer rfl start onto ending goal
        obtain ⟨_, _, target, entry, onward⟩ := move_jump step
        obtain rfl := unslashed_of_jump onward
        refine ⟨rfl, ?_⟩
        rw [walk_jump_succ, reached]
        rw [← move_write_of_present (by simp [entry]), step]

theorem walk_reach_of_file {place : Location} {mode : FileMode} {content : Bytes} {ending : Bool}
    (h : t.walk .inspect links here names slash = .ok (.taken place (.file mode content) ending)) :
    slash = false ∧ t.walk .reach links here names slash =
      .ok (.taken place (.file mode content) ending) := by
  induction links, here, names, slash using walk_induction with
  | nil links here slash =>
    rw [walk_nil] at h
    cases h
  | cons links here name rest slash ih ihLinks =>
    cases step : t.move .inspect here name rest slash with
    | halt result =>
      rw [walk_halt step] at h
      subst h
      obtain ⟨rfl, plain, accepted, arrived⟩ := move_halt_ok step
      obtain ⟨samePlace, entry, sameSlash⟩ := arrive_ok arrived
      simp only [Spot.place, Spot.entry?, Spot.slash] at samePlace entry sameSlash
      subst samePlace sameSlash
      cases ending
      · refine ⟨rfl, walk_halt ?_⟩
        rw [move_accepted plain (by simpa [refusal?] using accepted), ← entry]
        rfl
      · simp [← entry, arrive, Entry.isDirectory] at arrived
    | enter directory =>
      rw [walk_enter step] at h
      obtain ⟨rfl, reached⟩ := ih directory h
      exact ⟨rfl, by rw [walk_enter (move_enter_for .reach step), reached]⟩
    | jump start onto ending' =>
      cases links with
      | zero =>
        rw [walk_jump_zero step] at h
        cases h
      | succ fewer =>
        rw [walk_jump_succ step] at h
        obtain ⟨rfl, reached⟩ := ihLinks fewer rfl start onto ending' h
        obtain ⟨_, _, target, _, onward⟩ := move_jump step
        rcases jump_slash onward with ⟨more, rfl⟩ | ⟨_, follows, same⟩
        · refine ⟨rfl, ?_⟩
          rw [walk_jump_succ, reached]
          rw [move_of_rest t .reach .inspect here name false more, step]
        · -- A link at the end is only followed for the directory behind it.
          have slashed : slash = true := follows
          simp [slashed] at same

end NetworkCa.FileTree
