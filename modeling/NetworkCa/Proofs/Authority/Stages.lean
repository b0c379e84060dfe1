import NetworkCa.Proofs.Bundle.Stages
import NetworkCa.Proofs.FileTree.Absence

namespace NetworkCa

variable {σ : Type} {paths : List Path} {p : Path} {t t' : FileTree}

namespace Bundle

theorem absent_of_cleared (h : cleared paths t = (.ok (), t')) : ∀ p ∈ paths, t'.Absent p := by
  induction paths generalizing t with
  | nil => simp
  | cons p rest ih =>
    rw [cleared] at h
    rcases first : t.removeStale p with e | ⟨removed, between⟩ <;> simp only [first] at h
    · cases h
    · intro q hq
      rcases List.mem_cons.1 hq with rfl | hq
      · have removal := cleared_removes rest between
        rw [h] at removal
        exact (FileTree.absent_of_removeStale first).of_removed removal
      · exact ih h q hq

theorem not_isFile_of_cleared (p : Path) (rest : List Path) (t : FileTree) :
    (cleared (p :: rest) t).2.isFile p = false := by
  rw [cleared]
  rcases first : t.removeStale p with e | ⟨removed, between⟩
  · rw [Bool.eq_false_iff]
    intro there
    obtain ⟨r, ok⟩ := FileTree.removeStale_of_isFile there
    cases first.symm.trans ok
  · exact ((FileTree.absent_of_removeStale first).of_removed (cleared_removes rest between)).isFile

end Bundle

theorem Issuance.runOn_clear (p : Path) (w : World σ) :
    (Issuance.clear p).runOn w =
      match w.tree.removeStale p with
      | .ok (_, t) => (.ok (), { w with tree := t })
      | .error e => (.error e, w) := by
  rw [Issuance.clear, Issuance.runOn_change]
  rcases w.tree.removeStale p with e | ⟨removed, t⟩ <;> rfl

namespace Authority

def cleaned (settings : AuthoritySettings) (t : FileTree) :
    Except IssuanceError Subject × FileTree :=
  let files := settings.files
  match Subject.parse settings.subject with
  | .error fault => (.error (.subject fault), t)
  | .ok subject =>
    match t.ensureDirectory files.dir with
    | .error e => (.error e, t)
    | .ok t =>
      match Bundle.cleared [files.key, files.cert, files.serial] t with
      | (.error e, t) => (.error e, t)
      | (.ok (), t) => (.ok subject, t)

def found (s : Signer σ) (settings : AuthoritySettings) (subject : Subject) : Issuance σ Unit := do
  Issuance.call s (.key settings.method settings.keyPassphrase settings.files.key)
  Issuance.call s (.selfSign settings.files.key settings.keyPassphrase subject validityDays
    settings.requestConfig settings.files.cert)

theorem runOn_bootstrap (s : Signer σ) (settings : AuthoritySettings) (w : World σ) :
    (bootstrap s settings).runOn w =
      match cleaned settings w.tree with
      | (.error e, t) => (.error e, { w with tree := t })
      | (.ok subject, t) =>
        match (found s settings subject).runOn { w with tree := t } with
        | (.error e, after) => (.error e, after)
        | (.ok (), after) => (.ok settings.files, after) := by
  rw [bootstrap, cleaned]
  rcases Subject.parse settings.subject with fault | subject
  · rw [Work.runOn_bind, Work.runOn_lift_error]
  rw [Work.runOn_bind, Work.runOn_lift_ok]
  dsimp only
  rw [Work.runOn_bind, Issuance.runOn_change]
  rcases w.tree.ensureDirectory settings.files.dir with e | t
  · rfl
  dsimp only
  rw [Work.runOn_bind, Issuance.runOn_clear, Bundle.cleared]
  rcases t.removeStale settings.files.key with e | ⟨_, t⟩
  · rfl
  dsimp only
  rw [Work.runOn_bind, Issuance.runOn_clear, Bundle.cleared]
  dsimp only
  rcases t.removeStale settings.files.cert with e | ⟨_, t⟩
  · rfl
  dsimp only
  rw [Work.runOn_bind, Issuance.runOn_clear, Bundle.cleared]
  dsimp only
  rcases t.removeStale settings.files.serial with e | ⟨_, t⟩
  · rfl
  dsimp only [Bundle.cleared]
  rw [found, Work.runOn_bind, Work.runOn_bind]
  rcases (Issuance.call s _).runOn ⟨t, w.memory⟩ with ⟨e | _, keyed⟩
  · rfl
  dsimp only
  rw [Work.runOn_bind]
  rcases (Issuance.call s _).runOn keyed with ⟨e | _, after⟩ <;> rfl

theorem of_cleaned_ok {settings : AuthoritySettings} {u : FileTree} {subject : Subject}
    (h : cleaned settings t = (.ok subject, u)) :
    Subject.parse settings.subject = .ok subject ∧
      ∃ ready, t.ensureDirectory settings.files.dir = .ok ready ∧
        Bundle.cleared [settings.files.key, settings.files.cert, settings.files.serial] ready =
          (.ok (), u) := by
  unfold cleaned at h
  dsimp only at h
  split at h; · cases h
  next parsed =>
  split at h; · cases h
  next ready ensured =>
  split at h
  · cases h
  · next cleared =>
    cases h
    exact ⟨parsed, ready, ensured, cleared⟩

theorem cleaned_ok {settings : AuthoritySettings} {ready u : FileTree} {subject : Subject}
    (parsed : Subject.parse settings.subject = .ok subject)
    (ensured : t.ensureDirectory settings.files.dir = .ok ready)
    (cleared : Bundle.cleared [settings.files.key, settings.files.cert, settings.files.serial]
      ready = (.ok (), u)) : cleaned settings t = (.ok subject, u) := by
  simp only [cleaned, parsed, ensured, cleared]

theorem of_bootstrap_ok {s : Signer σ} {settings : AuthoritySettings} {w after : World σ}
    {files : AuthorityFiles} (h : (bootstrap s settings).runOn w = (.ok files, after)) :
    files = settings.files ∧ ∃ subject u, cleaned settings w.tree = (.ok subject, u) ∧
      (found s settings subject).runOn { w with tree := u } = (.ok (), after) := by
  rw [runOn_bootstrap] at h
  rcases ready : cleaned settings w.tree with ⟨e | subject, u⟩ <;> simp only [ready] at h
  · cases h
  rcases done : (found s settings subject).runOn { w with tree := u } with ⟨e | _, signed⟩ <;>
    simp only [done] at h <;> cases h
  exact ⟨rfl, subject, u, rfl, done⟩

theorem bootstrap_ok {s : Signer σ} {settings : AuthoritySettings} {w after : World σ}
    {subject : Subject} {u : FileTree} (ready : cleaned settings w.tree = (.ok subject, u))
    (done : (found s settings subject).runOn { w with tree := u } = (.ok (), after)) :
    (bootstrap s settings).runOn w = (.ok settings.files, after) := by
  rw [runOn_bootstrap]
  simp only [ready, done]

end Authority

end NetworkCa
