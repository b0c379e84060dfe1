import NetworkCa.Proofs.FileTree.Changes

namespace NetworkCa.FileTree

variable {t t' : FileTree} {within : Location → Prop} {links : Nat} {here place : Location}
  {name : String} {names rest : List String} {slash ending : Bool} {p : Path}

/-- Nothing is at a path, not even a link that leads nowhere. -/
def Absent (t : FileTree) (p : Path) : Prop := t.entryAt p = .error .notFound

theorem EntriesRemoved.move_inspect (removal : EntriesRemoved within t t') (here : Location)
    (name : String) (rest : List String) (slash : Bool) :
    t'.move .inspect here name rest slash = t.move .inspect here name rest slash ∨
      t'.move .inspect here name rest slash = .halt (.error .notFound) := by
  by_cases same : ∀ l ∈ looksAt here name, t'.get? l = t.get? l
  · exact .inl (move_congr same)
  rcases move_cases t .inspect here name rest slash with
    special | ⟨failure, plain, refused, step⟩ | ⟨plain, accepted, _⟩
  · simp [looksAt, special] at same
  · exact .inl ((move_refused plain refused).trans step.symm)
  · right
    have changed : t'.get? (here ++ [name]) ≠ t.get? (here ++ [name]) := by
      simpa [looksAt, plain] using same
    rw [move_accepted plain accepted, (removal.only _ changed).2]
    cases rest <;> rfl

theorem EntriesRemoved.walk_notFound (removal : EntriesRemoved within t t')
    (h : t.walk .inspect links here names slash = .error .notFound) :
    t'.walk .inspect links here names slash = .error .notFound := by
  induction links, here, names, slash using walk_induction with
  | nil links here slash =>
    rw [walk_nil] at h
    cases h
  | cons links here name rest slash ih ihLinks =>
    rcases removal.move_inspect here name rest slash with same | ended
    · cases step : t.move .inspect here name rest slash with
      | halt result =>
        rw [walk_halt (same.trans step)]
        rwa [walk_halt step] at h
      | enter directory =>
        rw [walk_enter (same.trans step)]
        exact ih directory (walk_enter step ▸ h)
      | jump start onto ending =>
        cases links with
        | zero =>
          rw [walk_jump_zero step] at h
          cases h
        | succ fewer =>
          rw [walk_jump_succ (same.trans step)]
          exact ihLinks fewer rfl start onto ending (walk_jump_succ step ▸ h)
    · exact walk_halt ended

theorem EntriesRemoved.walk_removed {e : Entry} (removal : EntriesRemoved within t t')
    (h : t.walk .occupy links here names slash = .ok (.taken place e ending))
    (other : e ≠ .directory) (gone : t'.get? place = none) :
    t'.walk .inspect links here names slash = .error .notFound := by
  induction links, here, names, slash using walk_induction with
  | nil links here slash =>
    rw [walk_nil] at h
    cases h
    exact absurd rfl other
  | cons links here name rest slash ih ihLinks =>
    rcases removal.move_inspect here name rest slash with same | ended
    · cases step : t.move .occupy here name rest slash with
      | halt result =>
        rw [walk_halt step] at h
        subst h
        obtain ⟨rfl, plain, accepted, arrived⟩ := move_halt_ok step
        obtain ⟨rfl, _, _⟩ := arrive_ok arrived
        apply walk_halt
        rw [move_accepted plain (by simpa [refusal?] using accepted)]
        rw [show t'.get? (here ++ [name]) = none from gone]
        rfl
      | enter directory =>
        have onward : t'.move .inspect here name rest slash = .enter directory := by
          rcases move_enter step with special | ⟨more, _⟩
          · obtain ⟨directory', stay⟩ := move_of_special here special
            rw [stay] at step ⊢
            exact step
          · rw [same, move_of_rest t .inspect .occupy here name slash more, step]
        rw [walk_enter onward]
        exact ih directory (walk_enter step ▸ h)
      | jump start onto ending =>
        obtain ⟨_, _, target, _, follows⟩ := move_jump step
        rcases jump_slash follows with ⟨more, _⟩ | ⟨_, follows, _⟩
        · have onward : t'.move .inspect here name rest slash = .jump start onto ending := by
            rw [same, move_of_rest t .inspect .occupy here name slash more, step]
          cases links with
          | zero =>
            rw [walk_jump_zero step] at h
            cases h
          | succ fewer =>
            rw [walk_jump_succ onward]
            exact ihLinks fewer rfl start onto ending (walk_jump_succ step ▸ h)
        · cases follows
    · exact walk_halt ended

theorem walk_inspect_ne_free {here' : Location} :
    t.walk .inspect links here names slash ≠ .ok (.free here' ending) := by
  intro h
  induction links, here, names, slash using walk_induction with
  | nil links here slash =>
    rw [walk_nil] at h
    cases h
  | cons links here name rest slash ih ihLinks =>
    cases step : t.move .inspect here name rest slash with
    | halt result =>
      rw [walk_halt step] at h
      subst h
      obtain ⟨_, _, _, arrived⟩ := move_halt_ok step
      obtain ⟨_, vacant, _⟩ := arrive_ok arrived
      rw [← vacant] at arrived
      cases arrived
    | enter directory => exact ih directory (walk_enter step ▸ h)
    | jump start onto ending =>
      cases links with
      | zero =>
        rw [walk_jump_zero step] at h
        cases h
      | succ fewer => exact ihLinks fewer rfl start onto ending (walk_jump_succ step ▸ h)

theorem absent_iff : t.Absent p ↔ t.lookup .inspect p = .error .notFound := by
  rw [Absent, entryAt]
  rcases h : t.lookup .inspect p with failure | ⟨l, e, s⟩ | ⟨l, s⟩
  · simp
  · simp
  · rw [walk_of_lookup_ok h] at h
    exact absurd h walk_inspect_ne_free

theorem Absent.of_removed (removal : EntriesRemoved within t t') (absent : t.Absent p) :
    t'.Absent p := by
  rw [absent_iff] at absent ⊢
  rcases lookup_cases p with ⟨failure, refused⟩ | walked
  · rw [refused] at absent ⊢
    exact absent
  · rw [walked] at absent ⊢
    rw [start_congr removal.cwd]
    exact removal.walk_notFound absent

theorem absent_erase (h : t.named? p = some place) : (t.erase place).Absent p := by
  have below := below_of_named? h
  obtain ⟨e, other, looked⟩ := named?_eq_some.1 h
  have walked := walk_of_lookup_ok looked
  rw [walked] at looked
  rw [absent_iff, walked]
  exact (entriesRemoved_erase below).walk_removed looked other (get?_erase_self below)

theorem absent_of_removeStale {removed : Bool} (h : t.removeStale p = .ok (removed, t')) :
    t'.Absent p := by
  rw [removeStale] at h
  rcases cleared : t.clearing p with failure | r
  · simp [cleared] at h
  · simp only [cleared, Except.ok.injEq] at h
    subst h
    unfold clearing at cleared
    split at cleared
    · next absent =>
      cases cleared
      exact absent
    · cases cleared
    · rcases gone : t.remove p with failure | after
      · simp [gone, Except.map] at cleared
      · simp only [gone, Except.map, Except.ok.injEq, Prod.mk.injEq] at cleared
        obtain ⟨_, rfl⟩ := cleared
        obtain ⟨place, named, rfl⟩ := of_remove_ok gone
        exact absent_erase named

theorem walk_names_of_file {mode : FileMode} {content : Bytes}
    (h : t.walk .reach links here names false = .ok (.taken place (.file mode content) ending)) :
    ∃ l e, e ≠ .directory ∧ ∀ purpose : Purpose, purpose.follows false = false →
      t.walk purpose links here names false = .ok (.taken l e false) := by
  generalize plainly : false = slash at h ⊢
  induction links, here, names, slash using walk_induction with
  | nil links here slash =>
    rw [walk_nil] at h
    cases h
  | cons links here name rest slash ih ihLinks =>
    subst plainly
    cases step : t.move .reach here name rest false with
    | halt result =>
      rw [walk_halt step] at h
      subst h
      obtain ⟨rfl, plain, accepted, arrived⟩ := move_halt_ok step
      obtain ⟨_, entry, _⟩ := arrive_ok arrived
      refine ⟨here ++ [name], .file mode content, by simp, fun purpose _ => walk_halt ?_⟩
      rw [move_accepted plain (by simpa [refusal?] using accepted), ← entry]
      cases purpose <;> rfl
    | enter directory =>
      obtain ⟨l, e, other, found⟩ := ih directory rfl (walk_enter step ▸ h)
      refine ⟨l, e, other, fun purpose unfollowed => ?_⟩
      have onward : t.move purpose here name rest false = .enter directory := by
        rcases move_enter step with special | ⟨more, _⟩
        · obtain ⟨directory', stay⟩ := move_of_special here special
          rw [stay] at step ⊢
          exact step
        · rw [move_of_rest t purpose .reach here name false more, step]
      rw [walk_enter onward]
      exact found purpose unfollowed
    | jump start onto ending' =>
      obtain ⟨plain, accepted, target, entry, follows⟩ := move_jump step
      rcases jump_slash follows with ⟨more, rfl⟩ | ⟨rfl, _, _⟩
      · cases links with
        | zero =>
          rw [walk_jump_zero step] at h
          cases h
        | succ fewer =>
          obtain ⟨l, e, other, found⟩ :=
            ihLinks fewer rfl start onto _ rfl (walk_jump_succ step ▸ h)
          refine ⟨l, e, other, fun purpose unfollowed => ?_⟩
          have onward : t.move purpose here name rest false = .jump start onto false := by
            rw [move_of_rest t purpose .reach here name false more, step]
          rw [walk_jump_succ onward]
          exact found purpose unfollowed
      · -- The link itself is what the path names.
        refine ⟨here ++ [name], .link target, by simp, fun purpose unfollowed => walk_halt ?_⟩
        rw [move_accepted plain (by simpa [refusal?] using accepted), entry]
        cases purpose <;> first | rfl | cases unfollowed

theorem names_of_isFile (h : t.isFile p = true) : ∃ l e, e ≠ .directory ∧
    ∀ purpose : Purpose, purpose.follows false = false →
      t.lookup purpose p = .ok (.taken l e false) := by
  have reached : ∃ place mode content slash,
      t.lookup .reach p = .ok (.taken place (.file mode content) slash) := by
    rw [isFile, behind] at h
    rcases looked : t.lookup .reach p with failure | ⟨l, _ | ⟨m, c⟩ | target, s⟩ | ⟨l, s⟩ <;>
      simp [looked, Entry.isFile] at h ⊢
  obtain ⟨place, mode, content, slash, looked⟩ := reached
  have walked := walk_of_lookup_ok looked
  rw [walked] at looked
  have unslashed : p.endsInSlash = false := (walk_write_of_file looked).1
  rw [unslashed] at looked
  obtain ⟨l, e, other, found⟩ := walk_names_of_file looked
  refine ⟨l, e, other, fun purpose unfollowed => ?_⟩
  rw [walked, unslashed]
  exact found purpose unfollowed

theorem removeStale_of_isFile (h : t.isFile p = true) : ∃ r, t.removeStale p = .ok r := by
  obtain ⟨l, e, other, found⟩ := names_of_isFile h
  refine ⟨(true, t.erase l), ?_⟩
  rw [removeStale, clearing, entryAt, found .inspect rfl, remove, found .occupy rfl]
  cases e <;> first | exact absurd rfl other | rfl

theorem Absent.isFile (absent : t.Absent p) : t.isFile p = false := by
  rw [Bool.eq_false_iff]
  intro there
  obtain ⟨l, e, _, found⟩ := names_of_isFile there
  rw [absent_iff, found .inspect rfl] at absent
  cases absent

end NetworkCa.FileTree
