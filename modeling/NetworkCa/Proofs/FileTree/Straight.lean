import NetworkCa.Proofs.FileTree.Absence
import NetworkCa.Proofs.Path.Resolution

namespace NetworkCa.FileTree

open NetworkCa.Path (follow)

variable {t t' t'' u : FileTree} {purpose : Purpose} {links : Nat} {here place : Location}
  {name last : String} {names front rest : List String} {slash : Bool} {p : Path} {spot : Spot}

def waypoints (here : Location) : List String → List Location
  | [] => []
  | name :: rest => looksAt here name ++ waypoints (follow here name) rest

structure Paved (t : FileTree) (here : Location) (names : List String) : Prop where
  sized : ∀ name ∈ names, name ≠ "" ∧ name.utf8ByteSize ≤ maxName
  directories : ∀ l ∈ waypoints here names, t.get? l = some .directory

theorem paved_nil : Paved t here [] := ⟨by simp, by simp [waypoints]⟩

theorem paved_cons :
    Paved t here (name :: rest) ↔ (name ≠ "" ∧ name.utf8ByteSize ≤ maxName) ∧
      (∀ l ∈ looksAt here name, t.get? l = some .directory) ∧
      Paved t (follow here name) rest := by
  constructor
  · rintro ⟨sized, directories⟩
    refine ⟨sized name (by simp), fun l hl => directories l (by simp [waypoints, hl]), ?_⟩
    exact ⟨fun r hr => sized r (by simp [hr]), fun l hl => directories l (by simp [waypoints, hl])⟩
  · rintro ⟨sized, directory, onward⟩
    refine ⟨?_, fun l hl => ?_⟩
    · simpa using ⟨sized, onward.sized⟩
    · rcases List.mem_append.1 hl with hl | hl
      · exact directory l hl
      · exact onward.directories l hl

theorem follow_of_plain (nonempty : name ≠ "") (plain : ¬(name = "." ∨ name = "..")) :
    follow here name = here ++ [name] := by
  rw [not_or] at plain
  rw [follow, if_neg (by simp [nonempty, plain.1]), if_neg plain.2]

theorem move_paved (nonempty : name ≠ "") (short : name.utf8ByteSize ≤ maxName)
    (directory : ∀ l ∈ looksAt here name, t.get? l = some .directory)
    (more : rest ≠ [] ∨ name = "." ∨ name = "..") :
    t.move purpose here name rest slash = .enter (follow here name) := by
  by_cases special : name = "." ∨ name = ".."
  · rcases special with rfl | rfl
    · rw [move_dot]
      rfl
    · rw [move_up]
      rfl
  · have more : rest.isEmpty = false := by simpa [special] using more
    have accepted : refusal? purpose name rest slash = none := by
      simp [refusal?, more, Nat.not_lt.2 short]
    rw [move_accepted special accepted, follow_of_plain nonempty special,
      directory _ (by simp [looksAt, special]), meet, more]
    rfl

theorem walk_paved (paved : Paved t here names) (more : rest ≠ []) :
    t.walk purpose links here (names ++ rest) slash =
      t.walk purpose links (names.foldl follow here) rest slash := by
  induction names generalizing here with
  | nil => rfl
  | cons name names ih =>
    obtain ⟨⟨nonempty, short⟩, directory, onward⟩ := paved_cons.1 paved
    have step : t.move purpose here name (names ++ rest) slash = .enter (follow here name) :=
      move_paved nonempty short directory (by simp [more])
    rw [List.cons_append, walk_enter step, ih onward, List.foldl_cons]

theorem walk_paved_end (paved : Paved t here names) (reading : purpose ≠ .write) :
    t.walk purpose links here names slash =
      .ok (.taken (names.foldl follow here) .directory slash) := by
  induction names generalizing here with
  | nil => exact walk_nil
  | cons name names ih =>
    obtain ⟨⟨nonempty, short⟩, directory, onward⟩ := paved_cons.1 paved
    by_cases more : names ≠ [] ∨ name = "." ∨ name = ".."
    · rw [walk_enter (move_paved nonempty short directory more), ih onward, List.foldl_cons]
    · obtain ⟨rfl, plain⟩ : names = [] ∧ ¬(name = "." ∨ name = "..") := by
        simpa [not_or] using more
      have accepted : refusal? purpose name [] slash = none := by
        simp [refusal?, reading, Nat.not_lt.2 short]
      rw [List.foldl_cons, List.foldl_nil, follow_of_plain nonempty plain]
      apply walk_halt
      rw [move_accepted plain accepted, directory _ (by simp [looksAt, plain])]
      cases purpose <;> first | exact absurd rfl reading | (cases slash <;> rfl)

theorem routeFrom_paved (paved : Paved t here names) (more : rest ≠ []) :
    t.routeFrom purpose links here (names ++ rest) slash =
      waypoints here names ++ t.routeFrom purpose links (names.foldl follow here) rest slash := by
  induction names generalizing here with
  | nil => rfl
  | cons name names ih =>
    obtain ⟨⟨nonempty, short⟩, directory, onward⟩ := paved_cons.1 paved
    have step : t.move purpose here name (names ++ rest) slash = .enter (follow here name) :=
      move_paved nonempty short directory (by simp [more])
    rw [List.cons_append, routeFrom_cons, step]
    dsimp only
    rw [ih onward, waypoints, List.append_assoc, List.foldl_cons]

theorem routeFrom_paved_end (paved : Paved t here names) :
    ∀ l ∈ t.routeFrom purpose links here names slash, l ∈ waypoints here names := by
  induction names generalizing here with
  | nil => cases links <;> simp [routeFrom, routeWith]
  | cons name names ih =>
    obtain ⟨⟨nonempty, short⟩, directory, onward⟩ := paved_cons.1 paved
    intro l hl
    rw [routeFrom_cons] at hl
    rw [waypoints, List.mem_append]
    rcases List.mem_append.1 hl with hl | hl
    · exact .inl hl
    right
    by_cases more : names ≠ [] ∨ name = "." ∨ name = ".."
    · rw [move_paved nonempty short directory more] at hl
      exact ih onward l hl
    · obtain ⟨rfl, plain⟩ : names = [] ∧ ¬(name = "." ∨ name = "..") := by
        simpa [not_or] using more
      have entry : t.get? (here ++ [name]) = some .directory :=
        directory _ (by simp [looksAt, plain])
      rcases move_cases t purpose here name [] slash with
        special | ⟨failure, _, _, step⟩ | ⟨_, _, step⟩
      · exact absurd special plain
      · simp [step] at hl
      · simp [step, entry, meet] at hl

def DeadEnd (t : FileTree) (purpose : Purpose) (l : Location) (target : Path) : Prop :=
  ∀ links rest slash spot, rest ≠ [] →
    t.walk purpose links (linkStart l.parent target) (target.steps ++ rest) slash ≠ .ok spot

theorem paved_of_walk (named : ∀ name ∈ names, name ≠ "") (more : rest ≠ [])
    (dead : ∀ l ∈ waypoints here names, ∀ target, t.get? l = some (.link target) →
      t.DeadEnd purpose l target)
    (h : t.walk purpose links here (names ++ rest) slash = .ok spot) : t.Paved here names := by
  induction names generalizing here with
  | nil => exact paved_nil
  | cons name names ih =>
    have onward {next : Location} (same : follow here name = next)
        (h : t.walk purpose links next (names ++ rest) slash = .ok spot) :
        t.Paved (follow here name) names := by
      subst same
      refine ih (fun r hr => named r (by simp [hr])) (fun l hl => dead l ?_) h
      simp [waypoints, hl]
    have nonempty := named name (by simp)
    rcases move_cases t purpose here name (names ++ rest) slash with
      special | ⟨failure, _, _, step⟩ | ⟨plain, accepted, step⟩
    · rcases special with rfl | rfl
      · exact paved_cons.2 ⟨by decide, by simp [looksAt], onward rfl (walk_enter move_dot ▸ h)⟩
      · exact paved_cons.2 ⟨by decide, by simp [looksAt], onward rfl (walk_enter move_up ▸ h)⟩
    · rw [List.cons_append, walk_halt step] at h
      cases h
    · have short : name.utf8ByteSize ≤ maxName := by
        simpa [refusal?, more] using accepted
      have unfinished : (names ++ rest).isEmpty = false := by simp [more]
      rcases entry : t.get? (here ++ [name]) with _ | _ | ⟨mode, content⟩ | target <;>
        simp only [entry, meet, unfinished, Bool.false_eq_true, if_false] at step
      · rw [List.cons_append, walk_halt step] at h
        cases h
      · refine paved_cons.2 ⟨⟨nonempty, short⟩, by simpa [looksAt, plain] using entry, ?_⟩
        exact onward (follow_of_plain nonempty plain) (walk_enter step ▸ h)
      · rw [List.cons_append, walk_halt step] at h
        cases h
      · rw [List.cons_append] at h
        cases links with
        | zero =>
          rw [walk_jump_zero step] at h
          cases h
        | succ fewer =>
          rw [walk_jump_succ step] at h
          have stuck := dead (here ++ [name]) (by simp [waypoints, looksAt, plain]) target entry
            fewer (names ++ rest) slash spot (by simp [more])
          rw [Location.parent, List.dropLast_concat] at stuck
          exact absurd h stuck

structure SameDirectories (t t' : FileTree) : Prop where
  cwd : t'.cwd = t.cwd
  iff : ∀ l, t'.get? l = some .directory ↔ t.get? l = some .directory

theorem SameDirectories.refl (t : FileTree) : SameDirectories t t := ⟨rfl, fun _ => .rfl⟩

theorem SameDirectories.symm (same : SameDirectories t t') : SameDirectories t' t :=
  ⟨same.cwd.symm, fun l => (same.iff l).symm⟩

theorem SameDirectories.trans (h : SameDirectories t t') (h' : SameDirectories t' t'') :
    SameDirectories t t'' := ⟨h'.cwd.trans h.cwd, fun l => (h'.iff l).trans (h.iff l)⟩

theorem way?_eq_directory {l : Location} :
    t.way? l = some .directory ↔ t.get? l = some .directory := by
  rw [way?_eq_some]
  simp [Entry.isFile]

theorem SameWays.sameDirectories (same : SameWays t t') : SameDirectories t t' :=
  ⟨same.cwd, fun l => by rw [← way?_eq_directory, ← way?_eq_directory, same.way]⟩

theorem get?_of_goal? (h : t.goal? p = some place) : t.get? place ≠ some .directory := by
  intro directory
  have unway := way?_of_goal? h
  rw [way?_eq_directory.2 directory] at unway
  cases unway

theorem Paved.congr (same : SameDirectories t t') (paved : t.Paved here names) :
    t'.Paved here names :=
  ⟨paved.sized, fun l hl => (same.iff l).2 (paved.directories l hl)⟩

/-- The place that a path names where no link is followed. -/
def site (t : FileTree) (p : Path) : Location := p.steps.foldl follow (t.start p)

theorem site_congr (cwd : t'.cwd = t.cwd) : t'.site p = t.site p := by
  rw [site, site, start_congr cwd]

/-- A path to a name in a directory that is reached through directories only. -/
def Straight (t : FileTree) (p : Path) : Prop :=
  ∃ front last, p.steps = front ++ [last] ∧ ¬(last = "." ∨ last = "..") ∧
    p.endsInSlash = false ∧ t.Paved (t.start p) front

theorem Straight.congr (same : SameDirectories t t') (straight : t.Straight p) : t'.Straight p := by
  obtain ⟨front, last, steps, plain, unslashed, paved⟩ := straight
  refine ⟨front, last, steps, plain, unslashed, ?_⟩
  rw [start_congr same.cwd]
  exact paved.congr same

theorem ne_empty_of_mem_steps {s : String} (h : s ∈ p.steps) : s ≠ "" := by
  simpa using (List.mem_filter.1 h).2

theorem site_of_steps (steps : p.steps = front ++ [last]) (plain : ¬(last = "." ∨ last = "..")) :
    t.site p = front.foldl follow (t.start p) ++ [last] := by
  have nonempty : last ≠ "" := ne_empty_of_mem_steps (p := p) (by simp [steps])
  rw [site, steps, List.foldl_append, List.foldl_cons, List.foldl_nil,
    follow_of_plain nonempty plain]

theorem Straight.site_ne_root (straight : t.Straight p) : t.site p ≠ [] := by
  obtain ⟨front, last, steps, plain, -, -⟩ := straight
  rw [site_of_steps steps plain]
  simp

theorem text_ne_empty (h : p.steps ≠ []) : p.text.isEmpty = false := by
  rw [Bool.eq_false_iff]
  intro empty
  obtain rfl : p = ⟨""⟩ := by
    cases p
    simpa using empty
  exact h (by decide +kernel)

theorem Absent.walked (absent : t.Absent p) (some : p.steps ≠ []) (purpose : Purpose) :
    t.lookup purpose p = t.walk purpose maxLinks (t.start p) p.steps p.endsInSlash := by
  rw [absent_iff] at absent
  rw [lookup] at absent ⊢
  by_cases nul : p.text.toList.contains '\x00'
  · rw [if_pos nul] at absent
    cases absent
  have there := text_ne_empty some
  by_cases long : p.text.utf8ByteSize ≥ pathLimit
  · rw [if_neg nul, if_neg (by simp [there]), if_pos long] at absent
    cases absent
  · rw [if_neg nul, if_neg (by simp [there]), if_neg long, start]

theorem place_of_walk_last (plain : ¬(last = "." ∨ last = ".."))
    (unfollowed : purpose.follows slash = true →
      ∀ target, t.get? (here ++ [last]) ≠ some (.link target))
    (h : t.walk purpose links here [last] slash = .ok spot) : spot.place = here ++ [last] := by
  cases step : t.move purpose here last [] slash with
  | halt result =>
    rw [walk_halt step] at h
    subst h
    exact (arrive_ok (move_halt_ok step).2.2.2).1
  | enter onto =>
    rcases move_enter step with special | ⟨more, _⟩
    · exact absurd special plain
    · exact absurd rfl more
  | jump onto names ending =>
    obtain ⟨_, _, target, entry, onward⟩ := move_jump step
    rcases jump_slash onward with ⟨more, _⟩ | ⟨_, follows, _⟩
    · exact absurd rfl more
    · exact absurd entry (unfollowed follows target)

theorem place_of_vacancy? (steps : p.steps = front ++ [last])
    (plain : ¬(last = "." ∨ last = "..")) (vacant : t.vacancy? p = some place) :
    ∃ directory fewer, place = directory ++ [last] ∧ ∀ purpose rest slash, rest ≠ [] →
      t.walk purpose maxLinks (t.start p) (front ++ rest) slash =
        t.walk purpose fewer directory rest slash := by
  rw [vacancy?_eq_some] at vacant
  rw [walk_of_lookup_ok vacant, steps] at vacant
  rcases walk_front t maxLinks (t.start p) front with
    ⟨failure, fails⟩ | ⟨directory, fewer, onward⟩
  · rw [fails _ _ _ (by simp)] at vacant
    cases vacant
  · rw [onward _ _ _ (by simp)] at vacant
    exact ⟨directory, fewer, place_of_walk_last plain (by simp [Purpose.follows]) vacant, onward⟩

/-- Where there is room for one name of a directory, there is room for every name that is absent
    from it, whatever links lead to the directory. -/
theorem Absent.vacancy? {q : Path} (absent : t.Absent q) (vacant : t.vacancy? p = some place)
    (steps : p.steps = front ++ [last]) (plain : ¬(last = "." ∨ last = ".."))
    (steps' : q.steps = front ++ [name]) (plain' : ¬(name = "." ∨ name = ".."))
    (start : t.start q = t.start p) (unslashed : q.endsInSlash = false) :
    ∃ directory, place = directory ++ [last] ∧ t.vacancy? q = some (directory ++ [name]) := by
  obtain ⟨directory, fewer, same, onward⟩ := place_of_vacancy? steps plain vacant
  refine ⟨directory, same, ?_⟩
  have walked := absent.walked (by simp [steps'])
  rw [absent_iff, walked, steps', start, unslashed, onward _ _ _ (by simp)] at absent
  rw [vacancy?_eq_some, walked, steps', start, unslashed, onward _ _ _ (by simp)]
  rcases move_cases t .inspect directory name [] false with
    special | ⟨failure, _, refused, step⟩ | ⟨_, accepted, step⟩
  · exact absurd special plain'
  · rw [walk_halt step] at absent
    cases absent
    simp [refusal?] at refused
  · apply walk_halt
    rw [move_accepted plain' (by simpa [refusal?] using accepted)]
    rcases entry : t.get? (directory ++ [name]) with _ | _ | ⟨mode, content⟩ | target <;>
      simp only [entry, meet, List.isEmpty_nil, if_true] at step
    · rfl
    all_goals
      rw [walk_halt step] at absent
      cases absent

theorem place_of_goal? (steps : p.steps = front ++ [last]) (plain : ¬(last = "." ∨ last = ".."))
    (unslashed : p.endsInSlash = false) (unlinked : ∀ target, t.entryAt p ≠ .ok (.link target))
    (goal : t.goal? p = some place) : ∃ directory, place = directory ++ [last] := by
  rw [goal?] at goal
  rcases looked : t.lookup .write p with failure | spot
  · rw [looked] at goal
    cases goal
  have walked := walk_of_lookup_ok looked t
  have same : spot.place = place := by
    rw [looked] at goal
    rcases spot with ⟨l, _ | _ | _, ending⟩ | ⟨l, ending⟩ <;> cases goal <;> rfl
  rw [walked, steps, unslashed] at looked
  rcases walk_front t maxLinks (t.start p) front with
    ⟨failure, fails⟩ | ⟨directory, fewer, onward⟩
  · rw [fails _ _ _ (by simp)] at looked
    cases looked
  rw [onward _ _ _ (by simp)] at looked
  refine ⟨directory, ?_⟩
  rw [← same]
  refine place_of_walk_last plain (fun _ target entry => unlinked target ?_) looked
  have accepted : refusal? .inspect last [] false = none := by
    rcases move_cases t .write directory last [] false with
      special | ⟨failure, _, _, step⟩ | ⟨_, accepted, _⟩
    · exact absurd special plain
    · rw [walk_halt step] at looked
      cases looked
    · simpa [refusal?] using accepted
  refine entryAt_eq_ok.2 ⟨directory ++ [last], false, ?_⟩
  rw [walked, steps, unslashed, onward _ _ _ (by simp)]
  apply walk_halt
  rw [move_accepted plain accepted, entry]
  rfl

theorem Straight.lookup_cases (straight : t.Straight p) :
    (∃ failure, failure ≠ .notFound ∧ ∀ purpose t', SameDirectories t t' →
      t'.lookup purpose p = .error failure) ∨
    (∀ purpose t', SameDirectories t t' →
      (purpose.follows false = true → ∀ target, t'.get? (t.site p) ≠ some (.link target)) →
      t'.lookup purpose p = arrive purpose (t.site p) false (t'.get? (t.site p))) := by
  obtain ⟨front, last, steps, plain, unslashed, paved⟩ := straight
  by_cases nul : p.text.toList.contains '\x00'
  · exact .inl ⟨.nulInPath, by simp, fun purpose t' _ => by rw [lookup, if_pos nul]⟩
  have there := text_ne_empty (p := p) (by simp [steps])
  by_cases long : p.text.utf8ByteSize ≥ pathLimit
  · exact .inl ⟨.nameTooLong, by simp, fun purpose t' _ => by
      rw [lookup, if_neg nul, if_neg (by simp [there]), if_pos long]⟩
  have walked (purpose : Purpose) (t' : FileTree) (same : SameDirectories t t') :
      t'.lookup purpose p =
        t'.walk purpose maxLinks (front.foldl follow (t.start p)) [last] false := by
    rw [lookup, if_neg nul, if_neg (by simp [there]), if_neg long, steps, unslashed]
    change t'.walk purpose maxLinks (t'.start p) _ _ = _
    rw [start_congr same.cwd, walk_paved (paved.congr same) (by simp)]
  rw [site_of_steps steps plain]
  by_cases short : last.utf8ByteSize > maxName
  · refine .inl ⟨.nameTooLong, by simp, fun purpose t' same => ?_⟩
    rw [walked purpose t' same]
    exact walk_halt (move_refused plain (by simp [refusal?, short]))
  · refine .inr fun purpose t' same unlinked => ?_
    rw [walked purpose t' same]
    apply walk_halt
    rw [move_accepted plain (by simp [refusal?, short])]
    rcases entry : t'.get? (front.foldl follow (t.start p) ++ [last]) with
      _ | _ | ⟨mode, content⟩ | target
    · rfl
    · rfl
    · rfl
    · by_cases follows : purpose.follows false = true
      · exact absurd entry (unlinked follows target)
      · simp [meet, follows]

/-- The second tree is the first one with nothing left at some places. -/
structure Wiped (places : List Location) (t t' : FileTree) : Prop where
  cwd : t'.cwd = t.cwd
  gone : ∀ l ∈ places, t'.get? l = none
  kept : ∀ l ∉ places, t'.get? l = t.get? l

theorem Wiped.refl (t : FileTree) : Wiped [] t t := ⟨rfl, by simp, fun _ _ => rfl⟩

theorem Wiped.cons {places : List Location} (h : Wiped [place] t t') (h' : Wiped places t' t'') :
    Wiped (place :: places) t t'' := by
  refine ⟨h'.cwd.trans h.cwd, fun l hl => ?_, fun l hl => ?_⟩
  · by_cases inside : l ∈ places
    · exact h'.gone l inside
    · obtain rfl : l = place := by simpa [inside] using hl
      rw [h'.kept l inside, h.gone l (by simp)]
  · rw [List.mem_cons, not_or] at hl
    rw [h'.kept l hl.2, h.kept l (by simpa using hl.1)]

theorem Wiped.sameDirectories {places : List Location} (wiped : Wiped places t t')
    (others : ∀ l ∈ places, t.get? l ≠ some .directory) : SameDirectories t t' := by
  refine ⟨wiped.cwd, fun l => ?_⟩
  by_cases inside : l ∈ places
  · rw [wiped.gone l inside]
    exact ⟨by simp, fun directory => absurd directory (others l inside)⟩
  · rw [wiped.kept l inside]

theorem wiped_erase (below : place ≠ []) : Wiped [place] t (t.erase place) := by
  refine ⟨rfl, fun l hl => ?_, fun l hl => get?_erase_of_ne (by simpa using hl)⟩
  obtain rfl : l = place := by simpa using hl
  exact get?_erase_self below

theorem wiped_of_free (free : t.get? place = none) : Wiped [place] t t :=
  ⟨rfl, fun l hl => (by simpa using hl : l = place) ▸ free, fun _ _ => rfl⟩

theorem removeStale_of_lookup
    (looked : ∀ purpose : Purpose, purpose.follows false = false →
      t.lookup purpose p = arrive purpose place false (t.get? place)) :
    t.removeStale p =
      match t.get? place with
      | none => .ok (false, t)
      | some .directory => .error (.cleanup p .isDirectory)
      | some _ => .ok (true, t.erase place) := by
  rw [removeStale, clearing, entryAt, looked .inspect rfl, remove, looked .occupy rfl]
  rcases t.get? place with _ | _ | _ | _ <;> rfl

theorem Straight.removeStale (straight : t.Straight p) {r : Bool × FileTree}
    (h : t.removeStale p = .ok r) :
    t.get? (t.site p) ≠ some .directory ∧ ∀ t', SameDirectories t t' →
      ∃ r', t'.removeStale p = .ok r' ∧ Wiped [t.site p] t' r'.2 := by
  have below := straight.site_ne_root
  rcases straight.lookup_cases with ⟨failure, other, refused⟩ | looked
  · rw [FileTree.removeStale, clearing, entryAt, refused .inspect t (.refl t)] at h
    cases failure <;> first | exact absurd rfl other | cases h
  have removed (t' : FileTree) (same : SameDirectories t t') := removeStale_of_lookup
    fun purpose unfollowed => looked purpose t' same (by simp [unfollowed])
  have other : t.get? (t.site p) ≠ some .directory := by
    intro directory
    rw [removed t (.refl t), directory] at h
    cases h
  refine ⟨other, fun t' same => ?_⟩
  have other' : t'.get? (t.site p) ≠ some .directory := fun directory =>
    other ((same.iff _).1 directory)
  rw [removed t' same]
  rcases entry : t'.get? (t.site p) with _ | _ | ⟨mode, content⟩ | target
  · exact ⟨_, rfl, wiped_of_free entry⟩
  · exact absurd entry other'
  · exact ⟨_, rfl, wiped_erase below⟩
  · exact ⟨_, rfl, wiped_erase below⟩

theorem Straight.entryAt_congr (straight : t.Straight p) (same : SameDirectories t t')
    (same' : SameDirectories t t'') (entry : t''.get? (t.site p) = t'.get? (t.site p)) :
    t''.entryAt p = t'.entryAt p := by
  have looked : t''.lookup .inspect p = t'.lookup .inspect p := by
    rcases straight.lookup_cases with ⟨failure, _, refused⟩ | looked
    · rw [refused .inspect t'' same', refused .inspect t' same]
    · rw [looked .inspect t'' same' (by simp [Purpose.follows]),
        looked .inspect t' same (by simp [Purpose.follows]), entry]
  rw [entryAt, entryAt, looked]

theorem makeLink_of_free {target : Path} (h : t.makeLink target p = .ok u)
    (looked : t'.lookup .occupy p = .ok (.free place false)) :
    t'.makeLink target p = .ok (t'.put place (.link target)) := by
  unfold makeLink at h ⊢
  split at h; · cases h
  next nul =>
  split at h; · cases h
  next empty =>
  split at h; · cases h
  next long =>
  rw [if_neg nul, if_neg empty, if_neg long, looked]
  rfl

theorem Straight.makeLink (straight : t.Straight p) {target : Path}
    (h : t.makeLink target p = .ok u) :
    u = t.put (t.site p) (.link target) ∧ ∀ t', SameDirectories t t' →
      t'.get? (t.site p) = none →
      t'.makeLink target p = .ok (t'.put (t.site p) (.link target)) := by
  obtain ⟨place, vacant, rfl⟩ := of_makeLink_ok h
  rw [vacancy?_eq_some] at vacant
  rcases straight.lookup_cases with ⟨failure, _, refused⟩ | looked
  · cases (refused .occupy t (.refl t)).symm.trans vacant
  have first := (looked .occupy t (.refl t) (by simp [Purpose.follows])).symm.trans vacant
  obtain ⟨same, _, _⟩ := arrive_ok first
  obtain rfl : place = t.site p := same
  refine ⟨rfl, fun t' same free => makeLink_of_free h ?_⟩
  rw [looked .occupy t' same (by simp [Purpose.follows]), free]
  rfl

theorem sameDirectories_of_makeLink {target : Path} (h : t.makeLink target p = .ok u) :
    SameDirectories t u := by
  obtain ⟨place, vacant, rfl⟩ := of_makeLink_ok h
  have free := get?_of_vacancy? vacant
  refine ⟨rfl, fun l => ?_⟩
  by_cases same : l = place
  · subst same
    rw [get?_put_of_unway (way?_eq_none.2 (.inl free)), free]
    simp
  · rw [get?_put_of_ne same]

theorem EntriesRemoved.sameDirectories {within : Location → Prop}
    (removal : EntriesRemoved within t t')
    (others : ∀ l, within l → t.get? l ≠ some .directory) : SameDirectories t t' := by
  refine ⟨removal.cwd, fun l => ⟨removal.get?, fun directory => ?_⟩⟩
  by_cases same : t'.get? l = t.get? l
  · rw [same, directory]
  · exact absurd directory (others l (removal.only l same).1)

theorem exists?_congr (same : SameDirectories t t') (paved : t.Paved (t.start p) p.steps) :
    t'.exists? p = t.exists? p := by
  rw [exists?, exists?, behind, behind, lookup_congr same.cwd]
  intro l hl
  have directory := paved.directories l (routeFrom_paved_end paved l hl)
  rw [directory, (same.iff l).2 directory]

def Unlinked (t : FileTree) (here : Location) (names : List String) : Prop :=
  ∀ l ∈ waypoints here names, ∀ target, t.get? l ≠ some (.link target)

def NoNewLinks (t t' : FileTree) : Prop :=
  ∀ l target, t'.get? l = some (.link target) → t.get? l = some (.link target)

theorem NoNewLinks.trans (h : NoNewLinks t t') (h' : NoNewLinks t' t'') : NoNewLinks t t'' :=
  fun l target linked => h l target (h' l target linked)

theorem SameWays.noNewLinks (same : SameWays t t') : NoNewLinks t t' := by
  intro l target linked
  have way := (same.way l).symm.trans (way?_eq_some.2 ⟨linked, rfl⟩)
  exact (way?_eq_some.1 way).1

theorem EntriesRemoved.noNewLinks {within : Location → Prop}
    (removal : EntriesRemoved within t t') : NoNewLinks t t' := fun _ _ => removal.get?

instance : Decidable (t.Unlinked here names) :=
  decidable_of_iff (∀ l ∈ waypoints here names, (t.get? l).any Entry.isLink = false) <| by
    refine forall_congr' fun l => forall_congr' fun _ => ?_
    rcases t.get? l with _ | _ | _ | _ <;> simp [Entry.isLink]

theorem Unlinked.congr (unlinked : t.Unlinked here names) (links : NoNewLinks t t') :
    t'.Unlinked here names :=
  fun l hl target linked => unlinked l hl target (links l target linked)

theorem paved_of_unlinked (named : ∀ name ∈ names, name ≠ "") (more : rest ≠ [])
    (unlinked : t.Unlinked here names)
    (h : t.walk purpose links here (names ++ rest) slash = .ok spot) : t.Paved here names :=
  paved_of_walk named more (fun l hl target linked => absurd linked (unlinked l hl target)) h

/-- A lookup that ends at a file, a link or a free place is along a straight path, if no link leads
    to its directory. -/
theorem straight_of_lookup (unlinked : t.Unlinked (t.start p) p.steps.dropLast)
    (h : t.lookup purpose p = .ok spot) (other : spot.entry? ≠ some .directory)
    (unslashed : p.endsInSlash = false) : t.Straight p := by
  have walked := walk_of_lookup_ok h t purpose
  rw [h] at walked
  have landed : ∀ l ending, spot ≠ .taken l .directory ending := by
    rintro l ending rfl
    exact other rfl
  rcases List.eq_nil_or_concat p.steps with none | ⟨front, last, steps⟩
  · rw [none, walk_nil] at walked
    exact absurd (Except.ok.inj walked) (landed _ _)
  rw [List.concat_eq_append] at steps
  have names : ∀ name ∈ front, name ≠ "" := fun name hn =>
    ne_empty_of_mem_steps (p := p) (by simp [steps, hn])
  rw [steps, List.dropLast_concat] at unlinked
  rw [steps] at walked
  have paved := paved_of_unlinked names (by simp) unlinked walked.symm
  rw [walk_paved paved (by simp)] at walked
  have plain : ¬(last = "." ∨ last = "..") := by
    intro special
    obtain ⟨directory, stay⟩ := move_of_special (front.foldl follow (t.start p)) special
    rw [walk_enter (stay _ _ _ _), walk_nil] at walked
    exact landed _ _ (Except.ok.inj walked)
  exact ⟨front, last, steps, plain, unslashed, paved⟩

theorem straight_of_read {content : Bytes}
    (unlinked : t.Unlinked (t.start p) p.steps.dropLast) (h : t.read p = .ok content) :
    t.Straight p := by
  obtain ⟨place, mode, ending, looked⟩ := read_eq_ok.1 h
  have walked := walk_of_lookup_ok looked t .reach
  rw [looked] at walked
  exact straight_of_lookup unlinked looked (by simp [Spot.entry?]) (walk_write_of_file walked.symm).1

theorem straight_of_vacancy? (unlinked : t.Unlinked (t.start p) p.steps.dropLast)
    (h : t.vacancy? p = some place) : t.Straight p := by
  have looked := vacancy?_eq_some.1 h
  have walked := walk_of_lookup_ok looked t .occupy
  rw [looked] at walked
  exact straight_of_lookup unlinked looked (by simp [Spot.entry?]) (slash_of_occupy walked.symm).symm

theorem walk_write_unslashed (h : t.walk .write links here names slash = .ok spot)
    (other : spot.entry? ≠ some .directory) : slash = false := by
  induction links, here, names, slash using walk_induction with
  | nil links here slash =>
    rw [walk_nil] at h
    cases h
    exact absurd rfl other
  | cons links here name rest slash ih ihLinks =>
    cases step : t.move .write here name rest slash with
    | halt result =>
      rw [walk_halt step] at h
      subst h
      obtain ⟨rfl, _, accepted, _⟩ := move_halt_ok step
      cases slash
      · rfl
      · cases accepted
    | enter directory => exact ih directory (walk_enter step ▸ h)
    | jump start onto ending =>
      cases links with
      | zero =>
        rw [walk_jump_zero step] at h
        cases h
      | succ fewer =>
        obtain ⟨_, _, target, _, onward⟩ := move_jump step
        have unslashed := ihLinks fewer rfl start onto ending (walk_jump_succ step ▸ h)
        rcases jump_slash onward with ⟨_, same⟩ | ⟨_, _, same⟩
        · exact same.symm.trans unslashed
        · exact (Bool.or_eq_false_iff.1 (same.symm.trans unslashed)).1

theorem straight_of_write {content : Bytes}
    (unlinked : t.Unlinked (t.start p) p.steps.dropLast) (h : t.write p content = .ok u) :
    t.Straight p := by
  obtain ⟨_, place, mode, goal, _⟩ := FilesChanged.of_write h
  rw [goal?] at goal
  rcases looked : t.lookup .write p with failure | spot
  · rw [looked] at goal
    cases goal
  have other : spot.entry? ≠ some .directory := by
    rw [looked] at goal
    rcases spot with ⟨l, _ | _ | _, ending⟩ | ⟨l, ending⟩ <;> cases goal <;> simp [Spot.entry?]
  have walked := walk_of_lookup_ok looked t .write
  rw [looked] at walked
  exact straight_of_lookup unlinked looked other (walk_write_unslashed walked.symm other)

theorem Straight.of_write (straight : t.Straight p)
    (unlinked : ∀ target, t.get? (t.site p) ≠ some (.link target)) {content : Bytes}
    (h : t.write p content = .ok u) : ∃ mode, u = t.put (t.site p) (.file mode content) := by
  rw [FileTree.write] at h
  rcases straight.lookup_cases with ⟨failure, _, refused⟩ | looked
  · rw [refused .write t (.refl t)] at h
    cases h
  rw [looked .write t (.refl t) fun _ => unlinked] at h
  rcases entry : t.get? (t.site p) with _ | _ | ⟨mode, old⟩ | target <;> rw [entry] at h
  · exact ⟨.plain, (Except.ok.inj h).symm⟩
  · cases h
  · exact ⟨mode, (Except.ok.inj h).symm⟩
  · exact absurd entry (unlinked target)

theorem Straight.get?_of_absent (straight : t.Straight p) (absent : t.Absent p) :
    t.get? (t.site p) = none := by
  rw [absent_iff] at absent
  rcases straight.lookup_cases with ⟨failure, other, refused⟩ | looked
  · rw [refused .inspect t (.refl t)] at absent
    exact absurd (Except.error.inj absent) other
  rw [looked .inspect t (.refl t) (by simp [Purpose.follows])] at absent
  rcases entry : t.get? (t.site p) with _ | e
  · rfl
  · rw [entry] at absent
    cases absent

end NetworkCa.FileTree
