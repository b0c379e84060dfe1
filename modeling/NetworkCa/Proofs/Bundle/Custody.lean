import NetworkCa.Proofs.Bundle.Stages

namespace NetworkCa.Bundle

variable {σ : Type} {s : Signer σ} {ca : AuthoritySettings} {leaf : LeafSettings} {i : Identity}
  {t t' t'' : FileTree} {p q : Path} {w : World σ}

def SameFile (p : Path) (t t' : FileTree) : Prop :=
  ∃ content, t.read p = .ok content ∧ t'.read p = .ok content

theorem sameFile_iff :
    SameFile p t t' ↔
      (t.read p).toOption.isSome = true ∧ (t'.read p).toOption = (t.read p).toOption := by
  constructor
  · rintro ⟨content, before, after⟩
    rw [before, after]
    exact ⟨rfl, rfl⟩
  · rintro ⟨there, same⟩
    obtain ⟨content, before⟩ := Option.isSome_iff_exists.1 there
    exact ⟨content, eq_ok_of_toOption before, eq_ok_of_toOption (same.trans before)⟩

instance : Decidable (SameFile p t t') := decidable_of_iff _ sameFile_iff.symm

theorem SameFile.trans (h : SameFile p t t') (h' : SameFile p t' t'') : SameFile p t t'' := by
  obtain ⟨content, before, between⟩ := h
  obtain ⟨content', between', after⟩ := h'
  cases between.symm.trans between'
  exact ⟨content, before, after⟩

def SameAuthority (authority : AuthorityFiles) (t t' : FileTree) : Prop :=
  ∀ p ∈ [authority.key, authority.cert], SameFile p t t'

instance (authority : AuthorityFiles) : Decidable (SameAuthority authority t t') :=
  inferInstanceAs (Decidable (∀ p ∈ [authority.key, authority.cert], SameFile p t t'))

theorem isFile_iff : t.isFile p = true ↔ ∃ content, t.read p = .ok content := by
  rw [FileTree.isFile, FileTree.read]
  rcases t.behind p with failure | _ | ⟨mode, content⟩ | target <;> simp [Entry.isFile]

theorem isPresent_iff {files : AuthorityFiles} :
    Authority.isPresent t files = true ↔ SameAuthority files t t := by
  simp [Authority.isPresent, isFile_iff, SameAuthority, SameFile]

theorem sameAuthority_self_iff :
    SameAuthority ca.files t t ↔ Authority.require t ca = .ok ca.files := by
  rw [← isPresent_iff, Authority.require]
  split <;> simp [*]

def outputs (authority : AuthorityFiles) (files : BundleFiles) : List Path :=
  [files.key, files.request, files.chain, authority.serial]

/-- A bundle is made next to an authority and not on top of it: clearing and linking spare the
    authority's key and certificate, and nothing that is written then leads to them. -/
structure Harmless (authority : AuthorityFiles) (leaf : LeafSettings) (i : Identity)
    (t : FileTree) : Prop where
  spared : SameAuthority authority t (prepared authority leaf i t).2
  apart : (prepared authority leaf i t).1.toBool = true →
    ∀ p ∈ outputs authority (.ofIdentity i), ∀ q ∈ [authority.key, authority.cert],
      (prepared authority leaf i t).2.goal? p ≠ (prepared authority leaf i t).2.goal? q

instance (authority : AuthorityFiles) (leaf : LeafSettings) (i : Identity) (t : FileTree) :
    Decidable (Harmless authority leaf i t) :=
  decidable_of_iff
    (SameAuthority authority t (prepared authority leaf i t).2 ∧
      ((prepared authority leaf i t).1.toBool = true →
        ∀ p ∈ outputs authority (.ofIdentity i), ∀ q ∈ [authority.key, authority.cert],
          (prepared authority leaf i t).2.goal? p ≠ (prepared authority leaf i t).2.goal? q))
    ⟨fun ⟨spared, apart⟩ => ⟨spared, apart⟩, fun ⟨spared, apart⟩ => ⟨spared, apart⟩⟩

theorem sign_filesChanged (signer : s.WritesOnly ca.files.serial) (leaf : LeafSettings)
    (subject : Subject) (files : BundleFiles) (w : World σ) :
    w.tree.FilesChanged (fun l => ∃ p ∈ outputs ca.files files, w.tree.goal? p = some l)
      ((sign s ca leaf subject files).runOn w).2.tree := by
  apply sign_keeps _ (FileTree.FilesChanged.refl _ _)
  intro c between hc counts changes
  apply changes.trans
  apply (signer c counts between).mono
  rintro l (goal | goal) <;> rw [FileTree.goal?_of_sameWays changes.sameWays] at goal
  · exact ⟨c.out, List.mem_append_left [ca.files.serial] hc, goal⟩
  · exact ⟨ca.files.serial, by simp [outputs], goal⟩

theorem appendFile_filesChanged {within : Location → Prop} {source goal : Path}
    (inside : ∀ l, t.goal? goal = some l → within l) (h : t.appendFile source goal = .ok t') :
    t.FilesChanged within t' := by
  obtain ⟨content, place, mode, old, slash, _, looked, rfl⟩ := FileTree.of_appendFile_ok h
  have found := FileTree.goal?_of_file looked
  apply (FileTree.filesChanged_put (FileTree.way?_of_goal? found)).mono
  rintro l rfl
  exact inside l found

def Written (authority : AuthorityFiles) (leaf : LeafSettings) (i : Identity) (t : FileTree)
    (l : Location) : Prop :=
  (prepared authority leaf i t).1.toBool = true ∧
    ∃ p ∈ outputs authority (.ofIdentity i), (prepared authority leaf i t).2.goal? p = some l

theorem issue_filesChanged (signer : s.WritesOnly ca.files.serial) (leaf : LeafSettings)
    (i : Identity) (w : World σ) :
    (prepared ca.files leaf i w.tree).2.FilesChanged (Written ca.files leaf i w.tree)
      ((issue s ca leaf i).runOn w).2.tree := by
  unfold Written
  rw [runOn_issue]
  rcases ready : prepared ca.files leaf i w.tree with ⟨e | subject, start⟩
  · exact .refl _ _
  have changes := (sign_filesChanged signer leaf subject (.ofIdentity i) ⟨start, w.memory⟩).mono
    fun l written => And.intro (rfl : (Except.ok subject : Except IssuanceError _).toBool = true)
      written
  dsimp only at changes ⊢
  rcases done : (sign s ca leaf subject (.ofIdentity i)).runOn ⟨start, w.memory⟩ with
    ⟨e | _, signed⟩ <;> rw [done] at changes
  · exact changes
  · dsimp only
    rcases added : signed.tree.appendFile ca.files.cert (BundleFiles.ofIdentity i).chain with
      e | last
    · exact changes
    · apply changes.trans
      apply appendFile_filesChanged _ added
      intro l goal
      rw [FileTree.goal?_of_sameWays changes.sameWays] at goal
      exact ⟨rfl, _, by simp [outputs], goal⟩

theorem Harmless.sameAuthority (harmless : Harmless ca.files leaf i w.tree)
    (signer : s.WritesOnly ca.files.serial) :
    SameAuthority ca.files w.tree ((issue s ca leaf i).runOn w).2.tree := by
  intro q hq
  obtain ⟨content, before, ready⟩ := harmless.spared q hq
  refine ⟨content, before, (issue_filesChanged signer leaf i w).read ready ?_⟩
  rintro l goal ⟨done, p, hp, written⟩
  exact harmless.apart done p hp q hq (written.trans goal.symm)

def refusing : Signer Unit := fun c => throw (.io c.out .exists)

theorem refusing_writesOnly (serial : Path) : refusing.WritesOnly serial :=
  fun _ _ => .of_tree_eq fun _ => rfl

/-- A signer that writes to `p` as soon as it may, and then gives up. -/
def spoiling (p serial : Path) (content : Bytes) : Signer Unit := fun c =>
  if c.out = p ∨ p = serial then do
    Work.change (.io p) (·.write p content)
    throw (.io p .exists)
  else pure ()

theorem spoiling_writesOnly (p serial : Path) (content : Bytes) :
    (spoiling p serial content).WritesOnly serial := by
  intro c _
  rw [spoiling]
  split
  · next allowed =>
    apply Work.ChangesFiles.bind (Work.steady_overwritten _ _)
    · apply Work.ChangesFiles.change
      intro t t' done
      apply (FileTree.FilesChanged.of_write done).1.mono
      intro l goal
      rcases allowed with rfl | rfl
      · exact .inl goal
      · exact .inr goal
    · exact fun _ => .of_tree_eq fun _ => rfl
  · exact .of_tree_eq fun _ => rfl

section Spoiling

variable {serial : Path} {content : Bytes} {c : SigningCall} {w : World Unit} {subject : Subject}
  {files : BundleFiles}

theorem spoiling_hit (allowed : c.out = p ∨ p = serial) (done : w.tree.write p content = .ok t') :
    (Issuance.call (spoiling p serial content) c).runOn w =
      (.error (.signing (.io p .exists)), { w with tree := t' }) := by
  rw [Issuance.runOn_call, spoiling, if_pos allowed, Work.runOn_bind, Work.runOn_change, done]
  rfl

theorem spoiling_miss (elsewhere : ¬(c.out = p ∨ p = serial)) :
    (Issuance.call (spoiling p serial content) c).runOn w = (.ok (), w) := by
  rw [Issuance.runOn_call, spoiling, if_neg elsewhere]
  rfl

theorem sign_spoiling (hp : p ∈ outputs ca.files files)
    (done : w.tree.write p content = .ok t') :
    (sign (spoiling p ca.files.serial content) ca leaf subject files).runOn w =
      (.error (.signing (.io p .exists)), { w with tree := t' }) := by
  rw [sign]
  by_cases first : (SigningCall.key ca.method none files.key).out = p ∨ p = ca.files.serial
  · exact Work.runOn_bind_error _ (spoiling_hit first done)
  rw [Work.runOn_bind_ok _ (spoiling_miss first)]
  by_cases second : (SigningCall.request files.key subject ca.requestConfig files.request).out = p ∨
      p = ca.files.serial
  · exact Work.runOn_bind_error _ (spoiling_hit second done)
  rw [Work.runOn_bind_ok _ (spoiling_miss second)]
  have third : files.chain = p := by
    simp only [outputs, List.mem_cons, List.not_mem_nil, or_false] at hp
    rcases hp with rfl | rfl | rfl | rfl
    · exact absurd (.inl rfl) first
    · exact absurd (.inl rfl) second
    · rfl
    · exact absurd (.inr rfl) first
  exact spoiling_hit (.inl third) done

theorem issue_spoiling (hp : p ∈ outputs ca.files (.ofIdentity i))
    (ready : prepared ca.files leaf i t = (.ok subject, t'))
    (done : t'.write p content = .ok t'') :
    ((issue (spoiling p ca.files.serial content) ca leaf i).runOn ⟨t, ()⟩).2.tree = t'' := by
  rw [runOn_issue]
  simp only [ready]
  rw [sign_spoiling hp done]

end Spoiling

theorem apart_of_sameAuthority
    (kept : ∀ s : Signer Unit, s.WritesOnly ca.files.serial →
      SameAuthority ca.files t ((issue s ca leaf i).runOn ⟨t, ()⟩).2.tree)
    (spared : SameAuthority ca.files t (prepared ca.files leaf i t).2)
    (done : (prepared ca.files leaf i t).1.toBool = true)
    (hp : p ∈ outputs ca.files (.ofIdentity i)) (hq : q ∈ [ca.files.key, ca.files.cert]) :
    (prepared ca.files leaf i t).2.goal? p ≠ (prepared ca.files leaf i t).2.goal? q := by
  intro same
  obtain ⟨old, before, ready⟩ := spared q hq
  obtain ⟨place, mode, slash, looked⟩ := FileTree.read_eq_ok.1 ready
  have goal := FileTree.goal?_of_file looked
  obtain ⟨mode', spoiled⟩ := FileTree.write_of_goal? (same.trans goal) (old ++ [0])
  obtain ⟨content, before', after⟩ :=
    kept _ (spoiling_writesOnly p ca.files.serial (old ++ [0])) q hq
  cases before.symm.trans before'
  rcases result : prepared ca.files leaf i t with ⟨e | subject, start⟩
  · rw [result] at done
    cases done
  simp only [result] at spoiled goal
  rw [issue_spoiling hp result spoiled] at after
  have equal := FileTree.read_put_of_goal? goal after
  simp at equal

/-- The signers that write to their outputs and to the serial number's file are harmless to an
    authority, whatever else they do, if and only if the bundle is. -/
theorem issue_keeps_authority_iff :
    (∀ (σ : Type) (s : Signer σ) (memory : σ), s.WritesOnly ca.files.serial →
      SameAuthority ca.files t ((issue s ca leaf i).runOn ⟨t, memory⟩).2.tree) ↔
    Harmless ca.files leaf i t := by
  constructor
  · intro kept
    -- After a first call that is refused, the files are as preparing has left them.
    have spared : SameAuthority ca.files t (prepared ca.files leaf i t).2 := by
      have refused := kept Unit refusing () (refusing_writesOnly _)
      rw [runOn_issue] at refused
      rcases ready : prepared ca.files leaf i t with ⟨e | subject, start⟩ <;>
        simp only [ready] at refused <;> exact refused
    exact ⟨spared, fun done p hp q hq => apart_of_sameAuthority (kept Unit · ()) spared done hp hq⟩
  · intro harmless σ s memory signer
    exact Harmless.sameAuthority (w := ⟨t, memory⟩) harmless signer

example : Harmless Sample.authority.files Sample.settings Sample.client Sample.tree := by
  decide +kernel

/-- A bundle that is named like the authority and stands among its files takes their places. -/
example : ¬ Harmless Sample.authority.files Sample.settings
    (.make .client Sample.authority.dir (some Sample.authority.filename) none) Sample.tree := by
  decide +kernel

end NetworkCa.Bundle
