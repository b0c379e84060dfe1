import NetworkCa.Proofs.Authority.Stages

namespace NetworkCa

namespace FileTree

variable {t t' : FileTree} {p : Path} {links : Nat} {here place : Location} {name : String}
  {names rest : List String} {slash ending : Bool} {e : Entry} {failure : FileFailure}

theorem walk_inspect_unslashed
    (h : t.walk .inspect links here names slash = .ok (.taken place e ending))
    (other : e ≠ .directory) : slash = false ∧ ending = false := by
  induction links, here, names, slash using walk_induction with
  | nil links here slash =>
    rw [walk_nil] at h
    cases h
    exact absurd rfl other
  | cons links here name rest slash ih ihLinks =>
    cases step : t.move .inspect here name rest slash with
    | halt result =>
      rw [walk_halt step] at h
      subst h
      obtain ⟨_, _, _, arrived⟩ := move_halt_ok step
      obtain ⟨_, entry, same⟩ := arrive_ok arrived
      rw [← entry] at arrived
      cases same
      cases ending
      · exact ⟨rfl, rfl⟩
      · simp [Spot.entry?, Spot.slash, arrive, Entry.isDirectory] at arrived
    | enter directory => exact ih directory (walk_enter step ▸ h)
    | jump start onto ending' =>
      cases links with
      | zero =>
        rw [walk_jump_zero step] at h
        cases h
      | succ fewer =>
        obtain ⟨unslashed, ended⟩ := ihLinks fewer rfl start onto ending' (walk_jump_succ step ▸ h)
        subst unslashed
        obtain ⟨_, _, _, _, onward⟩ := move_jump step
        exact ⟨unslashed_of_jump onward, ended⟩

theorem walk_inspect_iff_occupy :
    t.walk .inspect links here names false = .ok (.taken place e ending) ↔
      t.walk .occupy links here names false = .ok (.taken place e ending) := by
  generalize plainly : false = slash
  induction links, here, names, slash using walk_induction with
  | nil links here slash => rw [walk_nil, walk_nil]
  | cons links here name rest slash ih ihLinks =>
    subst plainly
    by_cases last : rest = []
    · subst last
      rcases move_cases t .occupy here name [] false with
        special | ⟨failure, plain, refused, step⟩ | ⟨plain, accepted, step⟩
      · obtain ⟨directory, stay⟩ := move_of_special here special
        rw [walk_enter (stay t .inspect [] false), walk_enter (stay t .occupy [] false)]
        exact ih directory rfl
      · rw [walk_halt step, walk_halt (move_refused plain (by simpa [refusal?] using refused))]
      · have step' : t.move .inspect here name [] false = _ :=
          move_accepted plain (by simpa [refusal?] using accepted)
        rcases entry : t.get? (here ++ [name]) with _ | _ | ⟨mode, content⟩ | target <;>
          rw [entry] at step step' <;> rw [walk_halt step, walk_halt step'] <;>
          simp [arrive]
    · have same := move_of_rest t .inspect .occupy here name false last
      cases step : t.move .occupy here name rest false with
      | halt result => rw [walk_halt step, walk_halt (same.trans step)]
      | enter directory =>
        rw [walk_enter step, walk_enter (same.trans step)]
        exact ih directory rfl
      | jump start onto ending' =>
        obtain ⟨_, _, _, _, onward⟩ := move_jump step
        have plainly : false = ending' := by
          rcases jump_slash onward with ⟨_, kept⟩ | ⟨none, _, _⟩
          · exact kept.symm
          · exact absurd none last
        cases links with
        | zero => rw [walk_jump_zero step, walk_jump_zero (same.trans step)]
        | succ fewer =>
          rw [walk_jump_succ step, walk_jump_succ (same.trans step)]
          exact ihLinks fewer rfl start onto ending' plainly

theorem walk_reach_ne_link {target : Path} :
    t.walk .reach links here names slash ≠ .ok (.taken place (.link target) ending) := by
  intro h
  induction links, here, names, slash using walk_induction with
  | nil links here slash =>
    rw [walk_nil] at h
    cases h
  | cons links here name rest slash ih ihLinks =>
    cases step : t.move .reach here name rest slash with
    | halt result =>
      rw [walk_halt step] at h
      subst h
      obtain ⟨rfl, plain, accepted, arrived⟩ := move_halt_ok step
      obtain ⟨_, entry, _⟩ := arrive_ok arrived
      rw [move_accepted plain accepted, ← entry] at step
      cases step
    | enter directory => exact ih directory (walk_enter step ▸ h)
    | jump start onto ending =>
      cases links with
      | zero =>
        rw [walk_jump_zero step] at h
        cases h
      | succ fewer => exact ihLinks fewer rfl start onto ending (walk_jump_succ step ▸ h)

theorem entryAt_of_named? (h : t.named? p = some place) :
    ∃ e, e ≠ .directory ∧ t.entryAt p = .ok e ∧ t.get? place = some e := by
  obtain ⟨e, other, looked⟩ := named?_eq_some.1 h
  have entry := get?_of_lookup_taken looked other
  have walked := walk_of_lookup_ok looked
  rw [walked] at looked
  have unslashed : p.endsInSlash = false := (slash_of_occupy looked).symm
  rw [unslashed] at looked
  refine ⟨e, other, entryAt_eq_ok.2 ⟨place, false, ?_⟩, entry⟩
  rw [walked, unslashed]
  exact walk_inspect_iff_occupy.2 looked

theorem named?_of_entryAt (h : t.entryAt p = .ok e) (other : e ≠ .directory) :
    ∃ place, t.named? p = some place := by
  obtain ⟨place, ending, looked⟩ := entryAt_eq_ok.1 h
  have walked := walk_of_lookup_ok looked
  rw [walked] at looked
  obtain ⟨unslashed, rfl⟩ := walk_inspect_unslashed looked other
  rw [unslashed] at looked
  refine ⟨place, named?_eq_some.2 ⟨e, other, ?_⟩⟩
  rw [walked, unslashed]
  exact walk_inspect_iff_occupy.1 looked

theorem removeStale_of_absent (absent : t.Absent p) : t.removeStale p = .ok (false, t) := by
  rw [removeStale, clearing, show t.entryAt p = .error .notFound from absent]

theorem removeStale_of_named? (h : t.named? p = some place) :
    t.removeStale p = .ok (true, t.erase place) := by
  obtain ⟨e, other, there, _⟩ := entryAt_of_named? h
  obtain ⟨found, unlike, looked⟩ := named?_eq_some.1 h
  have removed : t.remove p = .ok (t.erase place) := by
    rw [remove, looked]
    cases found with
    | directory => exact absurd rfl unlike
    | file => rfl
    | link => rfl
  rw [removeStale, clearing, there]
  dsimp only
  rw [removed]
  rfl

theorem remove_of_directory (there : t.entryAt p = .ok .directory) :
    ∃ failure, t.remove p = .error failure := by
  rcases gone : t.remove p with failure | after
  · exact ⟨failure, rfl⟩
  · obtain ⟨place, named, _⟩ := of_remove_ok gone
    obtain ⟨e, other, entry, _⟩ := entryAt_of_named? named
    cases there.symm.trans entry
    exact absurd rfl other

/-- What keeps a path from being cleared: it names a directory, or what it names is not known. -/
def Obstructed (t : FileTree) (p : Path) : Prop :=
  t.entryAt p = .ok .directory ∨ ∃ failure, failure ≠ .notFound ∧ t.entryAt p = .error failure

theorem Obstructed.not_absent (obstructed : t.Obstructed p) : ¬t.Absent p := by
  intro absent
  rcases obstructed with there | ⟨failure, other, unknown⟩
  · cases there.symm.trans absent
  · cases unknown.symm.trans absent
    exact other rfl

theorem Obstructed.unnamed (obstructed : t.Obstructed p) : t.named? p = none := by
  rw [Option.eq_none_iff_forall_ne_some]
  intro place named
  obtain ⟨e, other, entry, _⟩ := entryAt_of_named? named
  rcases obstructed with there | ⟨failure, _, unknown⟩
  · cases there.symm.trans entry
    exact other rfl
  · cases unknown.symm.trans entry

theorem removeStale_of_obstructed (obstructed : t.Obstructed p) :
    ∃ failure, t.removeStale p = .error (.cleanup p failure) ∧
      (t.entryAt p = .error failure ∨ t.remove p = .error failure) := by
  rcases obstructed with there | ⟨failure, other, unknown⟩
  · obtain ⟨failure, stays⟩ := remove_of_directory there
    refine ⟨failure, ?_, .inr stays⟩
    rw [removeStale, clearing, there]
    dsimp only
    rw [stays]
    rfl
  · refine ⟨failure, ?_, .inl unknown⟩
    rw [removeStale, clearing, unknown]
    cases failure <;> first | rfl | exact absurd rfl other

/-- Nothing is at a path, or a file or a link is, or the path cannot be cleared. -/
theorem absent_or_named_or_obstructed (t : FileTree) (p : Path) :
    t.Absent p ∨ (∃ place, t.named? p = some place) ∨ t.Obstructed p := by
  rcases h : t.entryAt p with failure | e
  · by_cases missing : failure = .notFound
    · subst missing
      exact .inl h
    · exact .inr (.inr (.inr ⟨failure, missing, h⟩))
  · by_cases directory : e = .directory
    · subst directory
      exact .inr (.inr (.inl h))
    · exact .inr (.inl (named?_of_entryAt h directory))

/-- What has become of the tree `t` with `p` cleared, if `removed` tells whether there was
    something. -/
structure Cleared (p : Path) (t : FileTree) (removed : Bool) (t' : FileTree) : Prop where
  absent : t'.Absent p
  told : removed = true ↔ ∃ e, t.entryAt p = .ok e
  unchanged : removed = false → t' = t
  single : removed = true → ∃ place e, t.entryAt p = .ok e ∧ t.get? place = some e ∧
    t'.get? place = none ∧ ∀ l, l ≠ place → t'.get? l = t.get? l
  cwd : t'.cwd = t.cwd
  directories : ∀ l, t'.get? l = some .directory ↔ t.get? l = some .directory
  target : ∀ target l e slash, t.entryAt p = .ok (.link target) →
    t.lookup .reach p = .ok (.taken l e slash) → e ≠ .directory → t'.get? l = some e
  again : t'.removeStale p = .ok (false, t')

theorem cleared_of_absent (absent : t.Absent p) : Cleared p t false t where
  absent := absent
  told := by
    have missing : t.entryAt p = .error .notFound := absent
    simp [missing]
  unchanged _ := rfl
  single := nofun
  cwd := rfl
  directories _ := Iff.rfl
  target _ _ _ _ link := by cases link.symm.trans absent
  again := removeStale_of_absent absent

theorem cleared_of_named? (h : t.named? p = some place) : Cleared p t true (t.erase place) := by
  have below := below_of_named? h
  have gone := absent_erase h
  obtain ⟨e, other, there, entry⟩ := entryAt_of_named? h
  refine ⟨gone, by simp [there], nofun, fun _ => ⟨place, e, there, entry, get?_erase_self below,
    fun l apart => get?_erase_of_ne apart⟩, rfl, fun l => ?_, ?_, removeStale_of_absent gone⟩
  · by_cases same : l = place
    · subst same
      simp [get?_erase_self below, entry, other]
    · rw [get?_erase_of_ne same]
  · intro target l found ending link reached unlike
    cases there.symm.trans link
    have stands := get?_of_lookup_taken reached unlike
    rw [← stands]
    apply get?_erase_of_ne
    rintro rfl
    cases entry.symm.trans stands
    rw [walk_of_lookup_ok reached] at reached
    exact walk_reach_ne_link reached

end FileTree

variable {σ : Type}

/-- A path is cleared of the one file or link that it names and of nothing else; or it cannot be
    cleared, and everything is as it was. -/
theorem FileTree.removeStale_outcome (p : Path) (w : World σ) :
    (∃ removed after, w.tree.removeStale p = .ok (removed, after.tree) ∧
      (Issuance.clear p).runOn w = (.ok (), after) ∧ Cleared p w.tree removed after.tree ∧
      ¬w.tree.Obstructed p) ∨
    (∃ failure, w.tree.removeStale p = .error (.cleanup p failure) ∧
      (Issuance.clear p).runOn w = (.error (.cleanup p failure), w) ∧ w.tree.Obstructed p ∧
      (w.tree.entryAt p = .error failure ∨ w.tree.remove p = .error failure)) := by
  rw [Issuance.runOn_clear]
  rcases absent_or_named_or_obstructed w.tree p with absent | ⟨place, named⟩ | obstructed
  · left
    refine ⟨false, w, removeStale_of_absent absent, ?_, cleared_of_absent absent,
      fun obstructed => obstructed.not_absent absent⟩
    rw [removeStale_of_absent absent]
  · left
    refine ⟨true, ⟨w.tree.erase place, w.memory⟩, removeStale_of_named? named, ?_,
      cleared_of_named? named, fun obstructed => ?_⟩
    · rw [removeStale_of_named? named]
    · cases named.symm.trans obstructed.unnamed
  · right
    obtain ⟨failure, refused, cause⟩ := removeStale_of_obstructed obstructed
    refine ⟨failure, refused, ?_, obstructed, cause⟩
    rw [refused]

end NetworkCa
