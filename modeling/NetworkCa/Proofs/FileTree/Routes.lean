import NetworkCa.Proofs.FileTree.Goals

namespace NetworkCa.FileTree

variable {t t' : FileTree} {purpose : Purpose} {p : Path} {spot : Spot} {place : Location}

def start (t : FileTree) (p : Path) : Location := if p.isAbsolute then [] else t.cwd

theorem lookup_cases (p : Path) :
    (∃ failure, ∀ t purpose, lookup t purpose p = .error failure) ∨
    (∀ t purpose, lookup t purpose p =
      t.walk purpose maxLinks (t.start p) p.steps p.endsInSlash) := by
  by_cases nul : p.text.toList.contains '\x00'
  · exact .inl ⟨.nulInPath, fun t purpose => by rw [lookup, if_pos nul]⟩
  by_cases empty : p.text.isEmpty
  · exact .inl ⟨.notFound, fun t purpose => by rw [lookup, if_neg nul, if_pos empty]⟩
  by_cases long : p.text.utf8ByteSize ≥ pathLimit
  · exact .inl ⟨.nameTooLong, fun t purpose => by
      rw [lookup, if_neg nul, if_neg empty, if_pos long]⟩
  · exact .inr fun t purpose => by rw [lookup, if_neg nul, if_neg empty, if_neg long, start]

theorem walk_of_lookup_ok (h : t.lookup purpose p = .ok spot) :
    ∀ (t' : FileTree) (purpose' : Purpose), t'.lookup purpose' p =
      t'.walk purpose' maxLinks (t'.start p) p.steps p.endsInSlash := by
  rcases lookup_cases p with ⟨failure, refused⟩ | walked
  · rw [refused] at h
    cases h
  · exact walked

/-- The places of the entries that a lookup looks at. -/
def route (t : FileTree) (purpose : Purpose) (p : Path) : List Location :=
  t.routeFrom purpose maxLinks (t.start p) p.steps p.endsInSlash

theorem start_congr (cwd : t'.cwd = t.cwd) : t'.start p = t.start p := by
  rw [start, start, cwd]

theorem lookup_congr (cwd : t'.cwd = t.cwd)
    (agree : ∀ l ∈ t.route purpose p, t'.get? l = t.get? l) :
    t'.lookup purpose p = t.lookup purpose p := by
  rcases lookup_cases p with ⟨failure, refused⟩ | walked
  · rw [refused, refused]
  · rw [walked, walked, start_congr cwd]
    exact walk_congr agree

theorem route_congr (cwd : t'.cwd = t.cwd)
    (agree : ∀ l ∈ t.route purpose p, t'.get? l = t.get? l) :
    t'.route purpose p = t.route purpose p := by
  rw [route, route, start_congr cwd]
  exact routeFrom_congr agree

theorem get?_of_lookup_ok (h : t.lookup purpose p = .ok spot) :
    spot.entry? = some .directory ∨ t.get? spot.place = spot.entry? := by
  rw [walk_of_lookup_ok h] at h
  exact walk_ok_entry h

theorem get?_of_lookup_free {slash : Bool} (h : t.lookup purpose p = .ok (.free place slash)) :
    t.get? place = none := by
  rcases get?_of_lookup_ok h with directory | same
  · cases directory
  · exact same

theorem get?_of_lookup_taken {e : Entry} {slash : Bool}
    (h : t.lookup purpose p = .ok (.taken place e slash)) (other : e ≠ .directory) :
    t.get? place = some e := by
  rcases get?_of_lookup_ok h with directory | same
  · exact absurd (Option.some.inj directory) other
  · exact same

theorem lookup_of_keepsWays (keeps : KeepsWays t t') (h : t.lookup purpose p = .ok spot)
    (same : t'.get? spot.place = t.get? spot.place) : t'.lookup purpose p = .ok spot := by
  have walked := walk_of_lookup_ok h
  rw [walked] at h ⊢
  rw [start_congr keeps.cwd]
  exact walk_of_keepsWays keeps h same

theorem lookup_rewritten (keeps : KeepsWays t t') {mode mode' : FileMode} {content content' : Bytes}
    {slash : Bool} (h : t.lookup purpose p = .ok (.taken place (.file mode content) slash))
    (now : t'.get? place = some (.file mode' content')) :
    t'.lookup purpose p = .ok (.taken place (.file mode' content') slash) := by
  have walked := walk_of_lookup_ok h
  rw [walked] at h ⊢
  rw [start_congr keeps.cwd]
  exact walk_rewritten keeps h now

/-- The place of the file or link that a path names, which may be a link. -/
def named? (t : FileTree) (p : Path) : Option Location :=
  match t.lookup .occupy p with
  | .ok (.taken place e false) => if e.isDirectory then none else some place
  | _ => none

def vacancy? (t : FileTree) (p : Path) : Option Location :=
  match t.lookup .occupy p with
  | .ok (.free place false) => some place
  | _ => none

theorem named?_eq_some :
    t.named? p = some place ↔
      ∃ e, e ≠ .directory ∧ t.lookup .occupy p = .ok (.taken place e false) := by
  rw [named?]
  rcases t.lookup .occupy p with failure | ⟨l, _ | _ | _, _ | _⟩ | ⟨l, slash⟩ <;>
    simp [Entry.isDirectory]

theorem vacancy?_eq_some :
    t.vacancy? p = some place ↔ t.lookup .occupy p = .ok (.free place false) := by
  rw [vacancy?]
  rcases t.lookup .occupy p with failure | ⟨l, e, slash⟩ | ⟨l, _ | _⟩ <;> simp

theorem get?_of_vacancy? (h : t.vacancy? p = some place) : t.get? place = none :=
  get?_of_lookup_free (vacancy?_eq_some.1 h)

/-- A free place is where every lookup of its path ends, once something other than a link to
    follow is there. -/
theorem lookup_of_vacancy? (keeps : KeepsWays t t') (h : t.vacancy? p = some place)
    (purpose : Purpose)
    (unlinked : purpose.follows false = true → ∀ target, t'.get? place ≠ some (.link target)) :
    t'.lookup purpose p = arrive purpose place false (t'.get? place) := by
  rw [vacancy?_eq_some] at h
  have walked := walk_of_lookup_ok h
  rw [walked] at h ⊢
  have unslashed : false = p.endsInSlash := slash_of_occupy h
  rw [← unslashed] at h ⊢
  rw [start_congr keeps.cwd]
  exact walk_of_free keeps purpose unlinked h

/-- The place of the file that writing to a path makes or changes. -/
def goal? (t : FileTree) (p : Path) : Option Location := goalOf (t.lookup .write p)

theorem goal?_of_sameWays (same : SameWays t t') (p : Path) : t'.goal? p = t.goal? p := by
  rcases lookup_cases p with ⟨failure, refused⟩ | walked
  · rw [goal?, goal?, refused, refused]
  · rw [goal?, goal?, walked, walked, start_congr same.cwd]
    exact goalOf_walk same _ _ _ _

theorem goal?_of_vacancy? (h : t.vacancy? p = some place) : t.goal? p = some place := by
  have keeps : KeepsWays t t := ⟨rfl, fun _ _ way => way⟩
  have vacant := get?_of_vacancy? h
  rw [goal?, lookup_of_vacancy? keeps h .write (by simp [vacant]), vacant]
  rfl

theorem lookup_write_of_file {mode : FileMode} {content : Bytes} {slash : Bool}
    (h : t.lookup .reach p = .ok (.taken place (.file mode content) slash)) :
    t.lookup .write p = .ok (.taken place (.file mode content) slash) := by
  have walked := walk_of_lookup_ok h
  rw [walked] at h ⊢
  exact (walk_write_of_file h).2

theorem lookup_reach_of_file {mode : FileMode} {content : Bytes} {slash : Bool}
    (h : t.lookup .inspect p = .ok (.taken place (.file mode content) slash)) :
    t.lookup .reach p = .ok (.taken place (.file mode content) slash) := by
  have walked := walk_of_lookup_ok h
  rw [walked] at h ⊢
  exact (walk_reach_of_file h).2

theorem lookup_reach_of_goal? {mode : FileMode} {content : Bytes} (h : t.goal? p = some place)
    (file : t.get? place = some (.file mode content)) :
    t.lookup .reach p = .ok (.taken place (.file mode content) false) := by
  rcases lookup_cases p with ⟨failure, refused⟩ | walked
  · rw [goal?, refused] at h
    cases h
  · rw [goal?, walked] at h
    rw [walked]
    exact (walk_reach_of_goal h file).2

theorem goal?_of_file {mode : FileMode} {content : Bytes} {slash : Bool}
    (h : t.lookup .reach p = .ok (.taken place (.file mode content) slash)) :
    t.goal? p = some place := by
  rw [goal?, lookup_write_of_file h]
  rfl

theorem way?_of_goal? (h : t.goal? p = some place) : t.way? place = none := by
  rw [goal?] at h
  rw [way?_eq_none]
  cases looked : t.lookup .write p with
  | error failure =>
    rw [looked] at h
    cases h
  | ok spot =>
    rw [looked] at h
    rcases spot with ⟨l, _ | ⟨mode, content⟩ | target, slash⟩ | ⟨l, slash⟩
    · cases h
    · cases h
      exact .inr ⟨mode, content, get?_of_lookup_taken looked (by simp)⟩
    · cases h
    · cases h
      exact .inl (get?_of_lookup_free looked)

theorem mem_route_of_goal? (h : t.goal? p = some place) : place ∈ t.route .write p := by
  rw [goal?] at h
  cases looked : t.lookup .write p with
  | error failure =>
    rw [looked] at h
    cases h
  | ok spot =>
    have walked := walk_of_lookup_ok looked t .write
    rw [looked] at h walked
    have other : spot.entry? ≠ some .directory ∧ spot.place = place := by
      rcases spot with ⟨l, _ | ⟨mode, content⟩ | target, slash⟩ | ⟨l, slash⟩ <;> cases h <;>
        simp [Spot.entry?, Spot.place]
    obtain ⟨other, rfl⟩ := other
    exact mem_routeFrom_of_walk walked.symm other

end NetworkCa.FileTree
