import NetworkCa.Proofs.FileTree.Walk

namespace NetworkCa.FileTree

variable {t t' t'' : FileTree} {purpose : Purpose} {links : Nat} {here : Location} {name : String}
  {names rest : List String} {slash : Bool} {spot : Spot}

theorem arrive_ok {place : Location} {found : Option Entry}
    (h : arrive purpose place slash found = .ok spot) :
    spot.place = place ∧ spot.entry? = found ∧ spot.slash = slash := by
  rcases found with _ | e <;> cases purpose <;> simp only [arrive] at h
  case some.inspect | some.reach =>
    split at h
    · cases h
    · cases h
      exact ⟨rfl, rfl, rfl⟩
  all_goals
    cases h
    try exact ⟨rfl, rfl, rfl⟩

/-- What a lookup can go through at a place: a directory or a link. -/
def way? (t : FileTree) (l : Location) : Option Entry := (t.get? l).filter (!·.isFile)

theorem way?_eq_some {l : Location} {e : Entry} :
    t.way? l = some e ↔ t.get? l = some e ∧ e.isFile = false := by
  simp [way?, Option.filter_eq_some_iff]

theorem way?_eq_none {l : Location} :
    t.way? l = none ↔ t.get? l = none ∨ ∃ mode content, t.get? l = some (.file mode content) := by
  rcases h : t.get? l with _ | _ | _ | _ <;> simp [way?, h, Entry.isFile]

theorem get?_put_of_unway {l : Location} {e : Entry} (unway : t.way? l = none) :
    (t.put l e).get? l = some e := by
  apply get?_put_self
  rintro rfl
  cases unway

theorem way_of_going (going : ∀ result, t.move purpose here name rest slash ≠ .halt result) :
    ∀ l ∈ looksAt here name, ∃ e, t.way? l = some e := by
  intro l hl
  cases step : t.move purpose here name rest slash with
  | halt result => exact absurd step (going result)
  | enter directory =>
    rcases move_enter step with special | ⟨_, plain, _, rfl, entry⟩
    · simp [looksAt, special] at hl
    · simp only [looksAt, plain, if_false, List.mem_singleton] at hl
      subst hl
      exact ⟨.directory, way?_eq_some.2 ⟨entry, rfl⟩⟩
  | jump start onto ending =>
    obtain ⟨plain, _, target, entry, _⟩ := move_jump step
    simp only [looksAt, plain, if_false, List.mem_singleton] at hl
    subst hl
    exact ⟨.link target, way?_eq_some.2 ⟨entry, rfl⟩⟩

theorem route_of_walk_ok (h : t.walk purpose links here names slash = .ok spot) :
    ∀ l ∈ t.routeFrom purpose links here names slash,
      (∃ e, t.way? l = some e) ∨ (l = spot.place ∧ t.get? l = spot.entry?) := by
  induction links, here, names, slash using walk_induction with
  | nil links here slash => cases links <;> simp [routeFrom, routeWith]
  | cons links here name rest slash ih ihLinks =>
    rw [routeFrom_cons]
    intro l hl
    rw [List.mem_append] at hl
    cases step : t.move purpose here name rest slash with
    | halt result =>
      rw [walk_halt step] at h
      subst h
      obtain ⟨rfl, plain, accepted, arrived⟩ := move_halt_ok step
      obtain ⟨place, entry, _⟩ := arrive_ok arrived
      simp only [looksAt, plain, if_false, step, List.mem_singleton, List.not_mem_nil,
        or_false] at hl
      subst hl
      exact .inr ⟨place.symm, entry.symm⟩
    | enter directory =>
      simp only [step] at hl
      rcases hl with hl | hl
      · have going : ∀ result, t.move purpose here name rest slash ≠ .halt result := by simp [step]
        exact .inl (way_of_going going l hl)
      · rw [walk_enter step] at h
        exact ih directory h l hl
    | jump start onto ending =>
      simp only [step] at hl
      rcases hl with hl | hl
      · have going : ∀ result, t.move purpose here name rest slash ≠ .halt result := by simp [step]
        exact .inl (way_of_going going l hl)
      · cases links with
        | zero => simp at hl
        | succ fewer =>
          rw [walk_jump_succ step] at h
          exact ihLinks fewer rfl start onto ending h l hl

theorem walk_ok_entry (h : t.walk purpose links here names slash = .ok spot) :
    spot.entry? = some .directory ∨ t.get? spot.place = spot.entry? := by
  induction links, here, names, slash using walk_induction with
  | nil links here slash =>
    rw [walk_nil] at h
    cases h
    exact .inl rfl
  | cons links here name rest slash ih ihLinks =>
    cases step : t.move purpose here name rest slash with
    | halt result =>
      rw [walk_halt step] at h
      subst h
      obtain ⟨rfl, plain, accepted, arrived⟩ := move_halt_ok step
      obtain ⟨place, entry, _⟩ := arrive_ok arrived
      exact .inr (by rw [place, entry])
    | enter directory => exact ih directory (walk_enter step ▸ h)
    | jump start onto ending =>
      cases links with
      | zero =>
        rw [walk_jump_zero step] at h
        cases h
      | succ fewer => exact ihLinks fewer rfl start onto ending (walk_jump_succ step ▸ h)

theorem mem_routeFrom_of_walk (h : t.walk purpose links here names slash = .ok spot)
    (other : spot.entry? ≠ some .directory) :
    spot.place ∈ t.routeFrom purpose links here names slash := by
  induction links, here, names, slash using walk_induction with
  | nil links here slash =>
    rw [walk_nil] at h
    cases h
    exact absurd rfl other
  | cons links here name rest slash ih ihLinks =>
    rw [routeFrom_cons, List.mem_append]
    cases step : t.move purpose here name rest slash with
    | halt result =>
      rw [walk_halt step] at h
      subst h
      obtain ⟨rfl, plain, accepted, arrived⟩ := move_halt_ok step
      obtain ⟨place, _, _⟩ := arrive_ok arrived
      exact .inl (by simp [looksAt, plain, place])
    | enter directory => exact .inr (ih directory (walk_enter step ▸ h))
    | jump start onto ending =>
      cases links with
      | zero =>
        rw [walk_jump_zero step] at h
        cases h
      | succ fewer => exact .inr (ihLinks fewer rfl start onto ending (walk_jump_succ step ▸ h))

theorem slash_of_occupy (h : t.walk .occupy links here names slash = .ok spot) :
    spot.slash = slash := by
  induction links, here, names, slash using walk_induction with
  | nil links here slash =>
    rw [walk_nil] at h
    cases h
    rfl
  | cons links here name rest slash ih ihLinks =>
    cases step : t.move .occupy here name rest slash with
    | halt result =>
      rw [walk_halt step] at h
      subst h
      obtain ⟨rfl, plain, accepted, arrived⟩ := move_halt_ok step
      exact (arrive_ok arrived).2.2
    | enter directory => exact ih directory (walk_enter step ▸ h)
    | jump start onto ending =>
      cases links with
      | zero =>
        rw [walk_jump_zero step] at h
        cases h
      | succ fewer =>
        obtain ⟨_, _, target, _, onward⟩ := move_jump step
        rcases jump_slash onward with ⟨_, rfl⟩ | ⟨_, follows, _⟩
        · exact ihLinks fewer rfl start onto ending (walk_jump_succ step ▸ h)
        · cases follows

/-- Every way of the first tree leads on in the second. -/
structure KeepsWays (t t' : FileTree) : Prop where
  cwd : t'.cwd = t.cwd
  way : ∀ l e, t.way? l = some e → t'.way? l = some e

theorem KeepsWays.trans (h : KeepsWays t t') (h' : KeepsWays t' t'') : KeepsWays t t'' :=
  ⟨h'.cwd.trans h.cwd, fun l e way => h'.way l e (h.way l e way)⟩

theorem KeepsWays.get? (keeps : KeepsWays t t') {l : Location} {e : Entry}
    (way : t.way? l = some e) : t'.get? l = t.get? l := by
  rw [(way?_eq_some.1 way).1, (way?_eq_some.1 (keeps.way l e way)).1]

theorem KeepsWays.move (keeps : KeepsWays t t')
    (going : ∀ result, t.move purpose here name rest slash ≠ .halt result) :
    t'.move purpose here name rest slash = t.move purpose here name rest slash := by
  apply move_congr
  intro l hl
  obtain ⟨e, way⟩ := way_of_going going l hl
  exact keeps.get? way

theorem walk_of_keepsWays (keeps : KeepsWays t t')
    (h : t.walk purpose links here names slash = .ok spot)
    (same : t'.get? spot.place = t.get? spot.place) :
    t'.walk purpose links here names slash = .ok spot := by
  rw [← h]
  apply walk_congr
  intro l hl
  rcases route_of_walk_ok h l hl with ⟨e, way⟩ | ⟨rfl, _⟩
  · exact keeps.get? way
  · exact same

theorem walk_rewritten (keeps : KeepsWays t t') {place : Location} {mode mode' : FileMode}
    {content content' : Bytes} {ending : Bool}
    (h : t.walk purpose links here names slash = .ok (.taken place (.file mode content) ending))
    (now : t'.get? place = some (.file mode' content')) :
    t'.walk purpose links here names slash =
      .ok (.taken place (.file mode' content') ending) := by
  induction links, here, names, slash using walk_induction with
  | nil links here slash =>
    rw [walk_nil] at h
    cases h
  | cons links here name rest slash ih ihLinks =>
    cases step : t.move purpose here name rest slash with
    | halt result =>
      rw [walk_halt step] at h
      subst h
      obtain ⟨rfl, plain, accepted, arrived⟩ := move_halt_ok step
      obtain ⟨rfl, entry, _⟩ := arrive_ok arrived
      apply walk_halt
      rw [move_accepted plain accepted, show t'.get? (here ++ [name]) = _ from now]
      rw [← entry] at arrived
      cases purpose <;> cases slash <;> cases arrived <;> rfl
    | enter directory =>
      rw [walk_enter ((keeps.move (by simp [step])).trans step)]
      exact ih directory (walk_enter step ▸ h)
    | jump start onto ending' =>
      cases links with
      | zero =>
        rw [walk_jump_zero step] at h
        cases h
      | succ fewer =>
        rw [walk_jump_succ ((keeps.move (by simp [step])).trans step)]
        exact ihLinks fewer rfl start onto ending' (walk_jump_succ step ▸ h)

theorem walk_of_free (keeps : KeepsWays t t') (purpose : Purpose) {place : Location}
    (unlinked : purpose.follows false = true → ∀ target, t'.get? place ≠ some (.link target))
    (h : t.walk .occupy links here names false = .ok (.free place slash)) :
    t'.walk purpose links here names false = arrive purpose place false (t'.get? place) := by
  -- Names before the last are ways, and a link at the end is not followed: no slash comes in.
  generalize plainly : false = unslashed at h ⊢
  induction links, here, names, unslashed using walk_induction with
  | nil links here unslashed =>
    rw [walk_nil] at h
    cases h
  | cons links here name rest unslashed ih ihLinks =>
    subst plainly
    cases step : t.move .occupy here name rest false with
    | halt result =>
      rw [walk_halt step] at h
      subst h
      obtain ⟨rfl, plain, accepted, arrived⟩ := move_halt_ok step
      obtain ⟨rfl, _, _⟩ := arrive_ok arrived
      apply walk_halt
      rw [move_accepted plain (by simpa [refusal?] using accepted)]
      rcases entry : t'.get? (here ++ [name]) with _ | _ | ⟨mode, content⟩ | target
      · rfl
      · rfl
      · rfl
      · by_cases follows : purpose.follows false = true
        · exact absurd entry (unlinked follows target)
        · simp [meet, follows]
    | enter directory =>
      have onward : t'.move purpose here name rest false = .enter directory :=
        move_enter_for purpose ((keeps.move (by simp [step])).trans step)
      rw [walk_enter step] at h
      rw [walk_enter onward]
      exact ih directory rfl h
    | jump start onto ending =>
      obtain ⟨_, _, target, _, follows⟩ := move_jump step
      rcases jump_slash follows with ⟨more, rfl⟩ | ⟨_, follows, _⟩
      · have onward : t'.move purpose here name rest false = .jump start onto false := by
          rw [move_of_rest t' purpose .occupy here name false more, keeps.move (by simp [step]),
            step]
        cases links with
        | zero =>
          rw [walk_jump_zero step] at h
          cases h
        | succ fewer =>
          rw [walk_jump_succ step] at h
          rw [walk_jump_succ onward]
          exact ihLinks fewer rfl start onto false rfl h
      · cases follows

end NetworkCa.FileTree
