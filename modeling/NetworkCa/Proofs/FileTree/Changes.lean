import NetworkCa.Proofs.FileTree.Routes
import NetworkCa.FileTree.Tidy

namespace NetworkCa.FileTree

variable {t t' t'' : FileTree} {within within' : Location → Prop} {purpose : Purpose} {p : Path}
  {place : Location}

/-- The second tree is the first one after changes of regular files at some places: files were
    made, rewritten or removed there, and everything else stands as it stood. -/
structure FilesChanged (within : Location → Prop) (t t' : FileTree) : Prop where
  cwd : t'.cwd = t.cwd
  only : ∀ l, t'.get? l ≠ t.get? l → within l ∧ t.way? l = none ∧ t'.way? l = none

theorem FilesChanged.refl (within : Location → Prop) (t : FileTree) : FilesChanged within t t :=
  ⟨rfl, fun _ changed => absurd rfl changed⟩

theorem FilesChanged.frame (changes : FilesChanged within t t') {l : Location}
    (outside : ¬within l) : t'.get? l = t.get? l :=
  Decidable.byContradiction fun changed => outside (changes.only l changed).1

theorem FilesChanged.sameWays (changes : FilesChanged within t t') : SameWays t t' := by
  refine ⟨changes.cwd, fun l => ?_⟩
  by_cases same : t'.get? l = t.get? l
  · rw [way?, way?, same]
  · obtain ⟨_, before, after⟩ := changes.only l same
    rw [before, after]

theorem FilesChanged.mono (changes : FilesChanged within t t')
    (wider : ∀ l, within l → within' l) : FilesChanged within' t t' := by
  refine ⟨changes.cwd, fun l changed => ?_⟩
  obtain ⟨inside, ways⟩ := changes.only l changed
  exact ⟨wider l inside, ways⟩

theorem FilesChanged.trans (h : FilesChanged within t t') (h' : FilesChanged within t' t'') :
    FilesChanged within t t'' := by
  refine ⟨h'.cwd.trans h.cwd, fun l changed => ?_⟩
  by_cases same : t'.get? l = t.get? l
  · obtain ⟨inside, before, after⟩ := h'.only l (same ▸ changed)
    exact ⟨inside, (h.sameWays.way l).symm.trans before, after⟩
  · obtain ⟨inside, before, after⟩ := h.only l same
    exact ⟨inside, before, (h'.sameWays.way l).trans after⟩

theorem filesChanged_put {mode : FileMode} {content : Bytes} (unway : t.way? place = none) :
    FilesChanged (· = place) t (t.put place (.file mode content)) := by
  refine ⟨rfl, fun l changed => ?_⟩
  by_cases same : l = place
  · subst same
    exact ⟨rfl, unway, way?_eq_none.2 (.inr ⟨mode, content, get?_put_of_unway unway⟩)⟩
  · exact absurd (get?_put_of_ne same) changed

theorem FilesChanged.lookup (changes : FilesChanged within t t') {spot : Spot}
    (h : t.lookup purpose p = .ok spot) (outside : ¬within spot.place) :
    t'.lookup purpose p = .ok spot :=
  lookup_of_keepsWays changes.sameWays.keeps h (changes.frame outside)

theorem read_eq_ok {content : Bytes} :
    t.read p = .ok content ↔
      ∃ place mode slash, t.lookup .reach p = .ok (.taken place (.file mode content) slash) := by
  rw [read, behind]
  rcases t.lookup .reach p with failure | ⟨l, _ | ⟨m, c⟩ | target, s⟩ | ⟨l, s⟩ <;> simp

theorem FilesChanged.read (changes : FilesChanged within t t') {content : Bytes}
    (h : t.read p = .ok content) (outside : ∀ l, t.goal? p = some l → ¬within l) :
    t'.read p = .ok content := by
  obtain ⟨place, mode, slash, looked⟩ := read_eq_ok.1 h
  exact read_eq_ok.2
    ⟨place, mode, slash, changes.lookup looked (outside place (goal?_of_file looked))⟩

theorem entryAt_eq_ok {e : Entry} :
    t.entryAt p = .ok e ↔ ∃ place slash, t.lookup .inspect p = .ok (.taken place e slash) := by
  rw [entryAt]
  rcases t.lookup .inspect p with failure | ⟨l, found, s⟩ | ⟨l, s⟩ <;> simp

theorem read_of_entryAt {mode : FileMode} {content : Bytes}
    (h : t.entryAt p = .ok (.file mode content)) : t.read p = .ok content := by
  obtain ⟨place, slash, looked⟩ := entryAt_eq_ok.1 h
  exact read_eq_ok.2 ⟨place, mode, slash, lookup_reach_of_file looked⟩

/-- A link stands through all changes of files, and so does a file that they do not touch. -/
theorem FilesChanged.entryAt (changes : FilesChanged within t t') {e : Entry}
    (h : t.entryAt p = .ok e) (other : e ≠ .directory)
    (outside : e.isFile = true → ∀ l, t.goal? p = some l → ¬within l) :
    t'.entryAt p = .ok e := by
  obtain ⟨place, slash, looked⟩ := entryAt_eq_ok.1 h
  refine entryAt_eq_ok.2 ⟨place, slash, lookup_of_keepsWays changes.sameWays.keeps looked ?_⟩
  have entry := get?_of_lookup_taken looked other
  rcases e with _ | ⟨mode, content⟩ | target
  · exact absurd rfl other
  · exact changes.frame (outside rfl place (goal?_of_file (lookup_reach_of_file looked)))
  · have way : t.way? place = some (.link target) := way?_eq_some.2 ⟨entry, rfl⟩
    exact changes.sameWays.keeps.get? way

theorem SameWays.entryAt_link {target : Path} (same : SameWays t t')
    (h : t.entryAt p = .ok (.link target)) : t'.entryAt p = .ok (.link target) := by
  obtain ⟨place, slash, looked⟩ := entryAt_eq_ok.1 h
  have way : t.way? place = some (.link target) :=
    way?_eq_some.2 ⟨get?_of_lookup_taken looked (by simp), rfl⟩
  exact entryAt_eq_ok.2
    ⟨place, slash, lookup_of_keepsWays same.keeps looked (same.keeps.get? way)⟩

theorem read_put_of_file {mode mode' : FileMode} {old content found : Bytes}
    (file : t.get? place = some (.file mode' old)) (read : t.read p = .ok found) :
    ∃ content', (t.put place (.file mode content)).read p = .ok content' := by
  obtain ⟨place', mode'', slash, looked⟩ := read_eq_ok.1 read
  have unway : t.way? place = none := way?_eq_none.2 (.inr ⟨mode', old, file⟩)
  have changes : t.FilesChanged (· = place) (t.put place (.file mode content)) :=
    filesChanged_put unway
  have keeps := changes.sameWays.keeps
  by_cases same : place' = place
  · subst same
    exact ⟨content, read_eq_ok.2
      ⟨_, _, _, lookup_rewritten keeps looked (get?_put_of_unway unway)⟩⟩
  · exact ⟨found, read_eq_ok.2
      ⟨_, _, _, lookup_of_keepsWays keeps looked (get?_put_of_ne same)⟩⟩

theorem FilesChanged.vacancy?_before (changes : FilesChanged within t t')
    (vacant : t'.vacancy? p = some place) : t.vacancy? p = some place ∨ within place := by
  by_cases same : t'.get? place = t.get? place
  · left
    rw [vacancy?_eq_some] at vacant ⊢
    exact lookup_of_keepsWays changes.sameWays.symm.keeps vacant same.symm
  · exact .inr (changes.only place same).1

theorem FilesChanged.of_create {mode : FileMode} {content : Bytes}
    (h : t.create p mode content = .ok t') :
    FilesChanged (fun l => t.vacancy? p = some l) t t' ∧
      ∃ place, t.vacancy? p = some place ∧ t'.get? place = some (.file mode content) := by
  rw [create] at h
  rcases looked : t.lookup .occupy p with failure | ⟨l, e, slash⟩ | ⟨l, slash⟩
  · simp [looked] at h
  · cases slash <;> simp [looked] at h
  · cases slash <;> simp only [looked, Bool.false_eq_true, if_true, if_false] at h <;> cases h
    have vacant : t.vacancy? p = some l := vacancy?_eq_some.2 looked
    have unway : t.way? l = none := way?_eq_none.2 (.inl (get?_of_vacancy? vacant))
    refine ⟨(filesChanged_put unway).mono ?_, l, vacant, get?_put_of_unway unway⟩
    rintro _ rfl
    exact vacant

theorem FilesChanged.of_write {content : Bytes} (h : t.write p content = .ok t') :
    FilesChanged (fun l => t.goal? p = some l) t t' ∧
      ∃ place mode, t.goal? p = some place ∧ t' = t.put place (.file mode content) := by
  have written : ∃ place mode, t.goal? p = some place ∧ t' = t.put place (.file mode content) := by
    rw [write] at h
    rw [goal?]
    rcases looked : t.lookup .write p with failure | ⟨l, _ | ⟨m, c⟩ | target, s⟩ | ⟨l, s⟩ <;>
      simp only [looked] at h <;> cases h
    · exact ⟨l, m, rfl, rfl⟩
    · exact ⟨l, .plain, rfl, rfl⟩
  refine ⟨?_, written⟩
  obtain ⟨place, mode, goal, rfl⟩ := written
  apply (filesChanged_put (way?_of_goal? goal)).mono
  rintro _ rfl
  exact goal

theorem write_of_goal? (h : t.goal? p = some place) (content : Bytes) :
    ∃ mode, t.write p content = .ok (t.put place (.file mode content)) := by
  rw [goal?] at h
  rw [write]
  rcases looked : t.lookup .write p with failure | ⟨l, _ | ⟨mode, old⟩ | target, s⟩ | ⟨l, s⟩ <;>
    rw [looked] at h <;> cases h
  · exact ⟨mode, rfl⟩
  · exact ⟨.plain, rfl⟩

theorem read_put_goal? (h : t.goal? p = some place) (mode : FileMode) (content : Bytes) :
    (t.put place (.file mode content)).read p = .ok content := by
  have unway := way?_of_goal? h
  have changes : FilesChanged (· = place) t (t.put place (.file mode content)) :=
    filesChanged_put unway
  have goal : (t.put place (.file mode content)).goal? p = some place :=
    (goal?_of_sameWays changes.sameWays p).trans h
  exact read_eq_ok.2
    ⟨place, mode, false, lookup_reach_of_goal? goal (get?_put_of_unway unway)⟩

theorem read_put_of_goal? (h : t.goal? p = some place) {mode : FileMode} {content found : Bytes}
    (read : (t.put place (.file mode content)).read p = .ok found) : found = content :=
  Except.ok.inj (read.symm.trans (read_put_goal? h mode content))

theorem read_of_write {content : Bytes} (h : t.write p content = .ok t') :
    t'.read p = .ok content := by
  obtain ⟨_, place, mode, goal, rfl⟩ := FilesChanged.of_write h
  exact read_put_goal? goal mode content

theorem read_of_create {mode : FileMode} {content : Bytes}
    (h : t.create p mode content = .ok t') : t'.read p = .ok content := by
  obtain ⟨changes, place, vacant, made⟩ := FilesChanged.of_create h
  have goal : t'.goal? p = some place :=
    (goal?_of_sameWays changes.sameWays p).trans (goal?_of_vacancy? vacant)
  exact read_eq_ok.2 ⟨place, mode, false, lookup_reach_of_goal? goal made⟩

theorem read_after_create {q : Path} {mode : FileMode} {content found : Bytes}
    (read : t.read p = .ok found) (h : t.create q mode content = .ok t') :
    t'.read p = .ok found := by
  obtain ⟨place, mode', slash, looked⟩ := read_eq_ok.1 read
  have there := get?_of_lookup_taken looked (by simp)
  apply (FilesChanged.of_create h).1.read read
  intro l goal vacant
  rw [goal?_of_file looked] at goal
  cases goal
  cases there.symm.trans (get?_of_vacancy? vacant)

theorem of_append_ok {content : Bytes} (h : t.append p content = .ok t') :
    ∃ place mode old slash, t.lookup .reach p = .ok (.taken place (.file mode old) slash) ∧
      t' = t.put place (.file mode (old ++ content)) := by
  rw [append] at h
  rcases looked : t.lookup .reach p with failure | ⟨l, _ | ⟨m, c⟩ | target, s⟩ | ⟨l, s⟩ <;>
    simp only [looked] at h <;> cases h
  exact ⟨l, m, c, s, rfl, rfl⟩

theorem of_appendFile_ok {source goal : Path} (h : t.appendFile source goal = .ok t') :
    ∃ content place mode old slash, t.read source = .ok content ∧
      t.lookup .reach goal = .ok (.taken place (.file mode old) slash) ∧
      t' = t.put place (.file mode (old ++ content)) := by
  rw [appendFile] at h
  rcases source_read : t.read source with failure | content
  · simp [source_read] at h
  · rcases added : t.append goal content with failure | after
    · simp [source_read, added] at h
    · simp only [source_read, added, Except.ok.injEq] at h
      obtain ⟨place, mode, old, slash, looked, rfl⟩ := of_append_ok added
      exact ⟨content, place, mode, old, slash, rfl, looked, h.symm⟩

theorem of_makeLink_ok {target : Path} (h : t.makeLink target p = .ok t') :
    ∃ place, t.vacancy? p = some place ∧ t' = t.put place (.link target) := by
  unfold makeLink at h
  split at h; · cases h
  split at h; · cases h
  split at h; · cases h
  split at h
  · next place slash looked =>
    split at h
    · cases h
    · next unslashed =>
      cases h
      refine ⟨place, vacancy?_eq_some.2 ?_, rfl⟩
      rw [looked, Bool.eq_false_iff.2 unslashed]
  · cases h
  · cases h

theorem of_remove_ok (h : t.remove p = .ok t') :
    ∃ place, t.named? p = some place ∧ t' = t.erase place := by
  rw [remove] at h
  rcases looked : t.lookup .occupy p with failure | ⟨l, e, slash⟩ | ⟨l, slash⟩
  · simp [looked] at h
  · cases slash <;> cases e <;> simp [looked] at h
    · exact ⟨l, named?_eq_some.2 ⟨_, by simp, looked⟩, h.symm⟩
    · exact ⟨l, named?_eq_some.2 ⟨_, by simp, looked⟩, h.symm⟩
  · simp [looked] at h

theorem of_removeStale_ok {removed : Bool} (h : t.removeStale p = .ok (removed, t')) :
    t' = t ∨ ∃ place, t.named? p = some place ∧ t' = t.erase place := by
  rw [removeStale] at h
  rcases cleared : t.clearing p with failure | r
  · simp [cleared] at h
  · simp only [cleared, Except.ok.injEq] at h
    subst h
    unfold clearing at cleared
    split at cleared
    · cases cleared
      exact .inl rfl
    · cases cleared
    · rcases gone : t.remove p with failure | after
      · simp [gone, Except.map] at cleared
      · simp only [gone, Except.map, Except.ok.injEq, Prod.mk.injEq] at cleared
        obtain ⟨_, rfl⟩ := cleared
        exact .inr (of_remove_ok gone)

/-- The second tree is the first one without the entries at some places. -/
structure EntriesRemoved (within : Location → Prop) (t t' : FileTree) : Prop where
  cwd : t'.cwd = t.cwd
  only : ∀ l, t'.get? l ≠ t.get? l → within l ∧ t'.get? l = none

theorem EntriesRemoved.refl (within : Location → Prop) (t : FileTree) :
    EntriesRemoved within t t := ⟨rfl, fun _ changed => absurd rfl changed⟩

theorem EntriesRemoved.mono (removal : EntriesRemoved within t t')
    (wider : ∀ l, within l → within' l) : EntriesRemoved within' t t' :=
  ⟨removal.cwd, fun l changed => (removal.only l changed).imp (wider l) id⟩

theorem EntriesRemoved.trans (h : EntriesRemoved within t t')
    (h' : EntriesRemoved within t' t'') : EntriesRemoved within t t'' := by
  refine ⟨h'.cwd.trans h.cwd, fun l changed => ?_⟩
  by_cases same : t''.get? l = t'.get? l
  · rw [same] at changed ⊢
    exact h.only l changed
  · exact h'.only l same

theorem EntriesRemoved.get? (removal : EntriesRemoved within t t') {l : Location} {e : Entry}
    (still : t'.get? l = some e) : t.get? l = some e := by
  rw [← still]
  refine Decidable.byContradiction fun changed => ?_
  have gone := (removal.only l (Ne.symm changed)).2
  rw [still] at gone
  cases gone

theorem EntriesRemoved.lookup_before (removal : EntriesRemoved within t t') {l : Location}
    {e : Entry} {slash : Bool} (h : t'.lookup purpose p = .ok (.taken l e slash))
    (other : e ≠ .directory) : t.lookup purpose p = .ok (.taken l e slash) := by
  refine lookup_of_keepsWays ⟨removal.cwd.symm, fun m w way => ?_⟩ h ?_
  · have ⟨entry, unfiled⟩ := way?_eq_some.1 way
    exact way?_eq_some.2 ⟨removal.get? entry, unfiled⟩
  · have entry := get?_of_lookup_taken h other
    exact (removal.get? entry).trans entry.symm

theorem EntriesRemoved.named?_before (removal : EntriesRemoved within t t')
    (h : t'.named? p = some place) : t.named? p = some place := by
  obtain ⟨e, other, looked⟩ := named?_eq_some.1 h
  exact named?_eq_some.2 ⟨e, other, removal.lookup_before looked other⟩

theorem EntriesRemoved.lookup_eq (removal : EntriesRemoved within t t')
    (apart : ∀ l, within l → l ∉ t.route purpose p) :
    t'.lookup purpose p = t.lookup purpose p := by
  refine lookup_congr removal.cwd fun l hl => ?_
  exact Decidable.byContradiction fun changed => apart l (removal.only l changed).1 hl

theorem below_of_named? (h : t.named? p = some place) : place ≠ [] := by
  obtain ⟨e, other, looked⟩ := named?_eq_some.1 h
  rintro rfl
  exact other (Option.some.inj (get?_of_lookup_taken looked other)).symm

theorem entriesRemoved_erase (below : place ≠ []) :
    EntriesRemoved (· = place) t (t.erase place) := by
  refine ⟨rfl, fun l changed => ?_⟩
  by_cases same : l = place
  · subst same
    exact ⟨rfl, get?_erase_self below⟩
  · exact absurd (get?_erase_of_ne same) changed

theorem keepsWays_put_free {e : Entry} (free : t.get? place = none) :
    KeepsWays t (t.put place e) := by
  refine ⟨rfl, fun l w way => ?_⟩
  have entry := (way?_eq_some.1 way).1
  have apart : l ≠ place := by
    rintro rfl
    rw [free] at entry
    cases entry
  rw [way?_eq_some, get?_put_of_ne apart]
  exact way?_eq_some.1 way

theorem lookup_put_free {e found : Entry} {l : Location} {slash : Bool}
    (free : t.get? place = none) (h : t.lookup purpose p = .ok (.taken l found slash))
    (other : found ≠ .directory) :
    (t.put place e).lookup purpose p = .ok (.taken l found slash) := by
  apply lookup_of_keepsWays (keepsWays_put_free free) h
  apply get?_put_of_ne
  rintro same
  subst same
  cases (get?_of_lookup_taken h other).symm.trans free

theorem entryAt_of_makeLink {target : Path} (h : t.makeLink target p = .ok t') :
    t'.entryAt p = .ok (.link target) := by
  obtain ⟨place, vacant, rfl⟩ := of_makeLink_ok h
  have free := get?_of_vacancy? vacant
  have entry : (t.put place (.link target)).get? place = some (.link target) :=
    get?_put_of_unway (way?_eq_none.2 (.inl free))
  refine entryAt_eq_ok.2 ⟨place, false, ?_⟩
  rw [lookup_of_vacancy? (keepsWays_put_free free) vacant .inspect (by simp [Purpose.follows]),
    entry]
  rfl

end NetworkCa.FileTree
