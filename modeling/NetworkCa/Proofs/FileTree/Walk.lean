import NetworkCa.FileTree.Operations

namespace NetworkCa.FileTree

def Spot.place : Spot → Location
  | .taken place _ _ => place
  | .free place _ => place

def Spot.entry? : Spot → Option Entry
  | .taken _ e _ => some e
  | .free _ _ => none

def Spot.slash : Spot → Bool
  | .taken _ _ slash => slash
  | .free _ slash => slash

variable {t t' : FileTree} {purpose : Purpose} {links : Nat} {here : Location} {name : String}
  {names rest : List String} {slash : Bool}

theorem move_dot : t.move purpose here "." rest slash = .enter here := rfl

theorem move_up : t.move purpose here ".." rest slash = .enter here.parent := by
  rw [move, if_neg (by decide), if_pos rfl]

theorem move_refused {failure : FileFailure} (plain : ¬(name = "." ∨ name = ".."))
    (refused : refusal? purpose name rest slash = some failure) :
    t.move purpose here name rest slash = .halt (.error failure) := by
  rw [not_or] at plain
  rw [move, if_neg plain.1, if_neg plain.2, refused]

theorem move_accepted (plain : ¬(name = "." ∨ name = ".."))
    (accepted : refusal? purpose name rest slash = none) :
    t.move purpose here name rest slash =
      meet purpose here (here ++ [name]) rest slash (t.get? (here ++ [name])) := by
  rw [not_or] at plain
  rw [move, if_neg plain.1, if_neg plain.2, accepted]

theorem move_cases (t : FileTree) (purpose : Purpose) (here : Location) (name : String)
    (rest : List String) (slash : Bool) :
    (name = "." ∨ name = "..") ∨
    (∃ failure, ¬(name = "." ∨ name = "..") ∧ refusal? purpose name rest slash = some failure ∧
      t.move purpose here name rest slash = .halt (.error failure)) ∨
    (¬(name = "." ∨ name = "..") ∧ refusal? purpose name rest slash = none ∧
      t.move purpose here name rest slash =
        meet purpose here (here ++ [name]) rest slash (t.get? (here ++ [name]))) := by
  by_cases special : name = "." ∨ name = ".."
  · exact .inl special
  · cases h : refusal? purpose name rest slash with
    | some failure => exact .inr (.inl ⟨failure, special, rfl, move_refused special h⟩)
    | none => exact .inr (.inr ⟨special, rfl, move_accepted special h⟩)

theorem move_of_special (here : Location) (special : name = "." ∨ name = "..") :
    ∃ directory, ∀ t purpose rest slash,
      move t purpose here name rest slash = .enter directory := by
  rcases special with rfl | rfl
  · exact ⟨here, fun _ _ _ _ => move_dot⟩
  · exact ⟨here.parent, fun _ _ _ _ => move_up⟩

theorem move_halt_ok {spot : Spot}
    (h : t.move purpose here name rest slash = .halt (.ok spot)) :
    rest = [] ∧ ¬(name = "." ∨ name = "..") ∧ refusal? purpose name rest slash = none ∧
      arrive purpose (here ++ [name]) slash (t.get? (here ++ [name])) = .ok spot := by
  rcases move_cases t purpose here name rest slash with
    special | ⟨failure, _, _, same⟩ | ⟨plain, accepted, same⟩
  · obtain ⟨directory, same⟩ := move_of_special here special
    rw [same] at h
    cases h
  · rw [same] at h
    cases h
  · rw [same] at h
    cases rest with
    | nil =>
      refine ⟨rfl, plain, accepted, ?_⟩
      rcases entry : t.get? (here ++ [name]) with _ | _ | ⟨mode, content⟩ | target <;>
        simp only [entry, meet, List.isEmpty_nil, if_true] at h ⊢
      · exact Move.halt.inj h
      · exact Move.halt.inj h
      · exact Move.halt.inj h
      · split at h
        · cases h
        · exact Move.halt.inj h
    | cons =>
      rcases entry : t.get? (here ++ [name]) with _ | _ | ⟨mode, content⟩ | target <;>
        simp [entry, meet] at h

theorem move_enter {directory : Location}
    (h : t.move purpose here name rest slash = .enter directory) :
    (name = "." ∨ name = "..") ∨ (rest ≠ [] ∧ ¬(name = "." ∨ name = "..") ∧
      refusal? purpose name rest slash = none ∧ directory = here ++ [name] ∧
      t.get? directory = some .directory) := by
  rcases move_cases t purpose here name rest slash with
    special | ⟨failure, _, _, same⟩ | ⟨plain, accepted, same⟩
  · exact .inl special
  · rw [same] at h
    cases h
  · rw [same] at h
    right
    rcases entry : t.get? (here ++ [name]) with _ | _ | ⟨mode, content⟩ | target <;>
      cases rest <;> simp [entry, meet] at h
    · exact ⟨by simp, plain, accepted, h.symm, h ▸ entry⟩
    · split at h <;> cases h

theorem move_jump {start : Location} {onto : List String} {ending : Bool}
    (h : t.move purpose here name rest slash = .jump start onto ending) :
    ¬(name = "." ∨ name = "..") ∧ refusal? purpose name rest slash = none ∧
      ∃ target, t.get? (here ++ [name]) = some (.link target) ∧
        meet purpose here (here ++ [name]) rest slash (some (.link target)) =
          .jump start onto ending := by
  rcases move_cases t purpose here name rest slash with
    special | ⟨failure, _, _, same⟩ | ⟨plain, accepted, same⟩
  · obtain ⟨directory, same⟩ := move_of_special here special
    rw [same] at h
    cases h
  · rw [same] at h
    cases h
  · rw [same] at h
    refine ⟨plain, accepted, ?_⟩
    rcases entry : t.get? (here ++ [name]) with _ | _ | ⟨mode, content⟩ | target
    · simp [entry, meet] at h
    · cases rest <;> simp [entry, meet] at h
    · simp [entry, meet] at h
    · exact ⟨target, rfl, entry ▸ h⟩

theorem move_of_rest (t : FileTree) (purpose purpose' : Purpose) (here : Location) (name : String)
    (slash : Bool) (more : rest ≠ []) :
    t.move purpose here name rest slash = t.move purpose' here name rest slash := by
  rcases rest with _ | ⟨next, rest⟩
  · exact absurd rfl more
  · rcases entry : t.get? (here ++ [name]) with _ | _ | ⟨mode, content⟩ | target <;>
      simp [move, refusal?, entry, meet]

theorem move_enter_for {directory : Location} (purpose' : Purpose)
    (h : t.move purpose here name rest slash = .enter directory) :
    t.move purpose' here name rest slash = .enter directory := by
  rcases move_enter h with special | ⟨more, _⟩
  · obtain ⟨directory', same⟩ := move_of_special here special
    rw [same] at h ⊢
    exact h
  · rw [move_of_rest t purpose' purpose here name slash more, h]

theorem jump_slash {target : Path} {start : Location} {onto : List String} {ending : Bool}
    (h : meet purpose here (here ++ [name]) rest slash (some (.link target)) =
      .jump start onto ending) :
    (rest ≠ [] ∧ ending = slash) ∨ (rest = [] ∧ purpose.follows slash = true ∧
      ending = (slash || target.endsInSlash)) := by
  rcases rest with _ | ⟨next, rest⟩
  · simp only [meet, List.isEmpty_nil, if_true] at h
    split at h
    · next follows =>
      cases h
      exact .inr ⟨rfl, follows, rfl⟩
    · cases h
  · simp only [meet, List.isEmpty_cons, Bool.false_eq_true, if_false, Move.jump.injEq] at h
    exact .inl ⟨by simp, h.2.2.symm⟩

theorem unslashed_of_jump {target : Path} {start : Location} {onto : List String}
    (h : meet purpose here (here ++ [name]) rest slash (some (.link target)) =
      .jump start onto false) : slash = false := by
  rcases jump_slash h with ⟨_, same⟩ | ⟨_, _, same⟩
  · exact same.symm
  · exact (Bool.or_eq_false_iff.1 same.symm).1

theorem walk_nil : t.walk purpose links here [] slash = .ok (.taken here .directory slash) := by
  cases links <;> rfl

theorem walk_halt {result : Except FileFailure Spot}
    (h : t.move purpose here name rest slash = .halt result) :
    t.walk purpose links here (name :: rest) slash = result := by
  cases links <;> simp [walk, walkWith, h]

theorem walk_enter {directory : Location}
    (h : t.move purpose here name rest slash = .enter directory) :
    t.walk purpose links here (name :: rest) slash =
      t.walk purpose links directory rest slash := by
  cases links <;> simp [walk, walkWith, h]

theorem walk_jump_zero {start : Location} {onto : List String} {ending : Bool}
    (h : t.move purpose here name rest slash = .jump start onto ending) :
    t.walk purpose 0 here (name :: rest) slash = .error .linkLoop := by
  simp [walk, walkWith, h]

theorem walk_jump_succ {start : Location} {onto : List String} {ending : Bool}
    (h : t.move purpose here name rest slash = .jump start onto ending) :
    t.walk purpose (links + 1) here (name :: rest) slash =
      t.walk purpose links start onto ending := by
  simp [walk, walkWith, h]

/-- A walk has shorter walks in it: those along the rest of its path and those with fewer links. -/
theorem walk_induction {motive : Nat → Location → List String → Bool → Prop}
    (nil : ∀ links here slash, motive links here [] slash)
    (cons : ∀ links here name rest slash, (∀ directory, motive links directory rest slash) →
      (∀ fewer, links = fewer + 1 → ∀ start onto ending, motive fewer start onto ending) →
      motive links here (name :: rest) slash)
    (links : Nat) (here : Location) (names : List String) (slash : Bool) :
    motive links here names slash := by
  induction links generalizing here names slash with
  | zero =>
    induction names generalizing here with
    | nil => exact nil 0 here slash
    | cons name rest ih => exact cons 0 here name rest slash ih (by simp)
  | succ links ihLinks =>
    induction names generalizing here with
    | nil => exact nil _ here slash
    | cons name rest ih =>
      apply cons _ here name rest slash ih
      intro fewer same
      obtain rfl := Nat.succ.inj same
      exact ihLinks

theorem walk_more_links
    (enough : t.walk purpose links here names slash ≠ .error .linkLoop) :
    t.walk purpose (links + 1) here names slash = t.walk purpose links here names slash := by
  induction links, here, names, slash using walk_induction with
  | nil links here slash => rw [walk_nil, walk_nil]
  | cons links here name rest slash ih ihLinks =>
    cases step : t.move purpose here name rest slash with
    | halt result => rw [walk_halt step, walk_halt step]
    | enter directory =>
      rw [walk_enter step] at enough
      rw [walk_enter step, walk_enter step]
      exact ih directory enough
    | jump start onto ending =>
      cases links with
      | zero => exact absurd (walk_jump_zero step) enough
      | succ fewer =>
        rw [walk_jump_succ step] at enough
        rw [walk_jump_succ step, walk_jump_succ step]
        exact ihLinks fewer rfl start onto ending enough

/-- Whatever comes behind a name, the name is read alike. -/
theorem move_onward (t : FileTree) (here : Location) (name : String) :
    (∃ failure, ∀ purpose rest slash, rest ≠ [] →
      t.move purpose here name rest slash = .halt (.error failure)) ∨
    (∃ directory, ∀ purpose rest slash, rest ≠ [] →
      t.move purpose here name rest slash = .enter directory) ∨
    (∃ start names, ∀ purpose rest slash, rest ≠ [] →
      t.move purpose here name rest slash = .jump start (names ++ rest) slash) := by
  by_cases special : name = "." ∨ name = ".."
  · obtain ⟨directory, stay⟩ := move_of_special here special
    exact .inr (.inl ⟨directory, fun purpose rest slash _ => stay t purpose rest slash⟩)
  by_cases long : name.utf8ByteSize > maxName
  · refine .inl ⟨.nameTooLong, fun purpose rest slash more => move_refused special ?_⟩
    simp [refusal?, more, long]
  have met (purpose : Purpose) (rest : List String) (slash : Bool) (more : rest ≠ []) :
      t.move purpose here name rest slash =
        meet purpose here (here ++ [name]) rest slash (t.get? (here ++ [name])) :=
    move_accepted special (by simp [refusal?, more, long])
  rcases entry : t.get? (here ++ [name]) with _ | _ | ⟨mode, content⟩ | target
  · exact .inl ⟨.notFound, fun purpose rest slash more => by
      simp [met purpose rest slash more, entry, meet, more]⟩
  · exact .inr (.inl ⟨here ++ [name], fun purpose rest slash more => by
      simp [met purpose rest slash more, entry, meet, more]⟩)
  · exact .inl ⟨.notDirectory, fun purpose rest slash more => by
      simp [met purpose rest slash more, entry, meet, more]⟩
  · exact .inr (.inr ⟨linkStart here target, target.steps, fun purpose rest slash more => by
      simp [met purpose rest slash more, entry, meet, more]⟩)

/-- What names lead to is all the same for whatever comes behind them: every walk along them fails
    alike, or every walk goes on from one directory. -/
theorem walk_front (t : FileTree) (links : Nat) (here : Location) (front : List String) :
    (∃ failure, ∀ purpose rest slash, rest ≠ [] →
      t.walk purpose links here (front ++ rest) slash = .error failure) ∨
    (∃ directory fewer, ∀ purpose rest slash, rest ≠ [] →
      t.walk purpose links here (front ++ rest) slash =
        t.walk purpose fewer directory rest slash) := by
  generalize true = ending
  induction links, here, front, ending using walk_induction with
  | nil links here => exact .inr ⟨here, links, fun _ _ _ _ => rfl⟩
  | cons links here name front _ ih ihLinks =>
    have behind {rest : List String} (more : rest ≠ []) : front ++ rest ≠ [] := by simp [more]
    rcases move_onward t here name with ⟨failure, step⟩ | ⟨directory, step⟩ | ⟨start, names, step⟩
    · exact .inl ⟨failure, fun purpose rest slash more =>
        walk_halt (step purpose _ slash (behind more))⟩
    · have same (purpose : Purpose) (rest : List String) (slash : Bool) (more : rest ≠ []) :
          t.walk purpose links here (name :: front ++ rest) slash =
            t.walk purpose links directory (front ++ rest) slash :=
        walk_enter (step purpose _ slash (behind more))
      refine (ih directory).imp (fun ⟨failure, fails⟩ => ⟨failure, ?_⟩)
        (fun ⟨last, fewer, onward⟩ => ⟨last, fewer, ?_⟩)
      · exact fun purpose rest slash more =>
          (same purpose rest slash more).trans (fails purpose rest slash more)
      · exact fun purpose rest slash more =>
          (same purpose rest slash more).trans (onward purpose rest slash more)
    · cases links with
      | zero =>
        exact .inl ⟨.linkLoop, fun purpose rest slash more =>
          walk_jump_zero (step purpose _ slash (behind more))⟩
      | succ fewer =>
        have same (purpose : Purpose) (rest : List String) (slash : Bool) (more : rest ≠ []) :
            t.walk purpose (fewer + 1) here (name :: front ++ rest) slash =
              t.walk purpose fewer start (names ++ front ++ rest) slash := by
          rw [List.append_assoc]
          exact walk_jump_succ (step purpose _ slash (behind more))
        refine (ihLinks fewer rfl start (names ++ front) true).imp
          (fun ⟨failure, fails⟩ => ⟨failure, ?_⟩) (fun ⟨last, left, onward⟩ => ⟨last, left, ?_⟩)
        · exact fun purpose rest slash more =>
            (same purpose rest slash more).trans (fails purpose rest slash more)
        · exact fun purpose rest slash more =>
            (same purpose rest slash more).trans (onward purpose rest slash more)

theorem walk_reach_of_enter {directory : Location} (links : Nat) (slash' : Bool)
    (h : t.move .reach here name ["."] slash = .enter directory) :
    ∃ ending, t.walk .reach links here [name] slash' = .ok (.taken directory .directory ending) := by
  rcases move_enter h with special | ⟨_, plain, accepted, rfl, entry⟩
  · obtain ⟨directory', stay⟩ := move_of_special here special
    cases h.symm.trans (stay t .reach ["."] slash)
    exact ⟨slash', by rw [walk_enter (stay t .reach [] slash'), walk_nil]⟩
  · refine ⟨slash', walk_halt ?_⟩
    rw [move_accepted plain (by simpa [refusal?] using accepted), entry]
    simp [meet, arrive, Entry.isDirectory]

theorem move_reach_of_jump {start : Location} {onto : List String} (slash' : Bool)
    (h : t.move .reach here name ["."] slash = .jump start (onto ++ ["."]) slash) :
    ∃ ending, t.move .reach here name [] slash' = .jump start onto ending := by
  obtain ⟨plain, accepted, target, entry, onward⟩ := move_jump h
  simp only [meet, List.isEmpty_cons, Bool.false_eq_true, if_false, Move.jump.injEq,
    List.append_cancel_right_eq, and_true] at onward
  obtain ⟨rfl, rfl⟩ := onward
  refine ⟨slash' || target.endsInSlash, ?_⟩
  rw [move_accepted plain (by simpa [refusal?] using accepted), entry]
  rfl

theorem walk_reach_of_dot {spot : Spot} (slash' : Bool)
    (h : t.walk .reach links here (names ++ ["."]) slash = .ok spot) :
    ∃ ending, t.walk .reach links here names slash' = .ok (.taken spot.place .directory ending) := by
  induction links, here, names, slash' using walk_induction with
  | nil links here slash' =>
    rw [List.nil_append, walk_enter move_dot, walk_nil] at h
    cases h
    exact ⟨slash', walk_nil⟩
  | cons links here name rest slash' ih ihLinks =>
    have more : rest ++ ["."] ≠ [] := by simp
    rw [List.cons_append] at h
    rcases move_onward t here name with ⟨failure, step⟩ | ⟨directory, step⟩ | ⟨start, onto, step⟩
    · rw [walk_halt (step _ _ _ more)] at h
      cases h
    · rw [walk_enter (step _ _ _ more)] at h
      by_cases last : rest = []
      · subst last
        rw [List.nil_append, walk_enter move_dot, walk_nil] at h
        cases h
        exact walk_reach_of_enter links slash' (step .reach ["."] slash (by simp))
      · obtain ⟨ending, reached⟩ := ih directory h
        exact ⟨ending, by rw [walk_enter (step _ _ _ last), reached]⟩
    · cases links with
      | zero =>
        rw [walk_jump_zero (step _ _ _ more)] at h
        cases h
      | succ fewer =>
        rw [walk_jump_succ (step _ _ _ more), ← List.append_assoc] at h
        by_cases last : rest = []
        · subst last
          obtain ⟨ending, jump⟩ := move_reach_of_jump slash' (step .reach ["."] slash (by simp))
          obtain ⟨slash'', reached⟩ := ihLinks fewer rfl start onto ending (by simpa using h)
          exact ⟨slash'', by rw [walk_jump_succ jump, reached]⟩
        · obtain ⟨ending, reached⟩ := ihLinks fewer rfl start (onto ++ rest) slash' h
          exact ⟨ending, by rw [walk_jump_succ (step _ _ _ last), reached]⟩

def looksAt (here : Location) (name : String) : List Location :=
  if name = "." ∨ name = ".." then [] else [here ++ [name]]

def routeWith (t : FileTree) (purpose : Purpose)
    (along : Location → List String → Bool → List Location) (slash : Bool) (here : Location) :
    List String → List Location
  | [] => []
  | name :: rest =>
    looksAt here name ++
      match t.move purpose here name rest slash with
      | .halt _ => []
      | .enter directory => t.routeWith purpose along slash directory rest
      | .jump start names slash => along start names slash

def routeFrom (t : FileTree) (purpose : Purpose) (links : Nat) (here : Location)
    (names : List String) (slash : Bool) : List Location :=
  match links with
  | 0 => t.routeWith purpose (fun _ _ _ => []) slash here names
  | links + 1 => t.routeWith purpose (t.routeFrom purpose links) slash here names

theorem routeFrom_cons (t : FileTree) (purpose : Purpose) (links : Nat) (here : Location)
    (name : String) (rest : List String) (slash : Bool) :
    t.routeFrom purpose links here (name :: rest) slash = looksAt here name ++
      match t.move purpose here name rest slash with
      | .halt _ => []
      | .enter directory => t.routeFrom purpose links directory rest slash
      | .jump start names slash =>
        match links with
        | 0 => []
        | fewer + 1 => t.routeFrom purpose fewer start names slash := by
  cases links <;> rfl

theorem move_congr (agree : ∀ l ∈ looksAt here name, t'.get? l = t.get? l) :
    t'.move purpose here name rest slash = t.move purpose here name rest slash := by
  rcases move_cases t purpose here name rest slash with
    special | ⟨failure, plain, refused, same⟩ | ⟨plain, accepted, same⟩
  · obtain ⟨directory, same⟩ := move_of_special here special
    rw [same, same]
  · rw [same, move_refused plain refused]
  · rw [same, move_accepted plain accepted, agree _ (by simp [looksAt, plain])]

/-- A walk depends on nothing but the entries on its route. -/
theorem walk_congr (agree : ∀ l ∈ t.routeFrom purpose links here names slash,
      t'.get? l = t.get? l) :
    t'.walk purpose links here names slash = t.walk purpose links here names slash := by
  induction links, here, names, slash using walk_induction with
  | nil links here slash => rw [walk_nil, walk_nil]
  | cons links here name rest slash ih ihLinks =>
    rw [routeFrom_cons] at agree
    have same : t'.move purpose here name rest slash = t.move purpose here name rest slash :=
      move_congr fun l hl => agree l (List.mem_append_left _ hl)
    cases h : t.move purpose here name rest slash with
    | halt result => rw [walk_halt h, walk_halt (same.trans h)]
    | enter directory =>
      rw [walk_enter h, walk_enter (same.trans h)]
      apply ih
      intro l hl
      apply agree
      simp [h, hl]
    | jump start onto ending =>
      cases links with
      | zero => rw [walk_jump_zero h, walk_jump_zero (same.trans h)]
      | succ fewer =>
        rw [walk_jump_succ h, walk_jump_succ (same.trans h)]
        apply ihLinks fewer rfl
        intro l hl
        apply agree
        simp [h, hl]

theorem routeFrom_congr (agree : ∀ l ∈ t.routeFrom purpose links here names slash,
      t'.get? l = t.get? l) :
    t'.routeFrom purpose links here names slash = t.routeFrom purpose links here names slash := by
  induction links, here, names, slash using walk_induction with
  | nil links here slash => cases links <;> rfl
  | cons links here name rest slash ih ihLinks =>
    rw [routeFrom_cons] at agree
    have same : t'.move purpose here name rest slash = t.move purpose here name rest slash :=
      move_congr fun l hl => agree l (List.mem_append_left _ hl)
    rw [routeFrom_cons, routeFrom_cons, same]
    cases h : t.move purpose here name rest slash with
    | halt result => rfl
    | enter directory =>
      dsimp only
      rw [ih directory fun l hl => agree l (by simp [h, hl])]
    | jump start onto ending =>
      cases links with
      | zero => rfl
      | succ fewer =>
        dsimp only
        rw [ihLinks fewer rfl start onto ending fun l hl => agree l (by simp [h, hl])]

end NetworkCa.FileTree
