import NetworkCa.Proofs.Bundle.Chain
import NetworkCa.Proofs.Bundle.Custody

namespace NetworkCa.Bundle

open FileTree (FilesChanged)

variable {σ : Type} {s : Signer σ} {ca : AuthoritySettings} {authority : AuthorityFiles}
  {leaf : LeafSettings} {i j : Identity} {w after : World σ} {files : BundleFiles}
  {t t' t'' : FileTree} {p : Path} {place : Location} {subject : Subject}

/-- A bundle with all of its parts, whose chain ends with the certificate of the authority. -/
structure Complete (authority : AuthorityFiles) (files : BundleFiles) (t : FileTree) : Prop where
  made : ∀ p ∈ files.made, ∃ mode content, t.entryAt p = .ok (.file mode content)
  link : ∃ target, t.entryAt files.link = .ok (.link target)
  chain : ∃ mode bytes content, t.entryAt files.chain = .ok (.file mode (bytes ++ content)) ∧
    t.read authority.cert = .ok content

def Spare (serial : Path) (t : FileTree) (l : Location) : Prop :=
  t.get? l = none ∨ t.goal? serial = some l

theorem Spare.of_changed {serial : Path} (changes : t.FilesChanged (Spare serial t) t')
    {l : Location} (spare : Spare serial t' l) : Spare serial t l := by
  rcases spare with free | goal
  · by_cases same : t'.get? l = t.get? l
    · exact .inl (same ▸ free)
    · exact (changes.only l same).1
  · rw [FileTree.goal?_of_sameWays changes.sameWays] at goal
    exact .inr goal

theorem changes_of_call {serial : Path} {c : SigningCall} {result : Except SigningError Unit}
    (signer : s.MakesAnew serial) (changes : t.FilesChanged (Spare serial t) w.tree)
    (called : (s c).runOn w = (result, after)) (counts : c.CountsAt serial) :
    t.FilesChanged (Spare serial t) after.tree := by
  have more := (signer c counts).changes w
  rw [called] at more
  apply changes.trans
  apply more.mono
  rintro l (vacant | goal)
  · exact Spare.of_changed changes (.inl (FileTree.get?_of_vacancy? vacant))
  · exact Spare.of_changed changes (.inr goal)

theorem sign_changes (signer : s.MakesAnew ca.files.serial) (leaf : LeafSettings)
    (subject : Subject) (files : BundleFiles) (w : World σ) :
    w.tree.FilesChanged (Spare ca.files.serial w.tree)
      ((sign s ca leaf subject files).runOn w).2.tree := by
  apply sign_keeps _ (.refl _ _)
  intro c between _ counts changes
  exact changes_of_call signer changes rfl counts

/-- Once a bundle is prepared, files change only at free places and where the path of the serial
    number leads. -/
theorem issue_changes (signer : s.MakesAnew ca.files.serial) (leaf : LeafSettings) (i : Identity)
    (w : World σ) :
    (prepared ca.files leaf i w.tree).2.FilesChanged
      (Spare ca.files.serial (prepared ca.files leaf i w.tree).2)
      ((issue s ca leaf i).runOn w).2.tree := by
  rw [runOn_issue]
  rcases ready : prepared ca.files leaf i w.tree with ⟨e | subject, start⟩
  · exact .refl _ _
  dsimp only
  have changes := sign_changes signer leaf subject (.ofIdentity i) ⟨start, w.memory⟩
  rcases done : (sign s ca leaf subject (.ofIdentity i)).runOn ⟨start, w.memory⟩ with
    ⟨e | _, signed⟩ <;> rw [done] at changes
  · exact changes
  dsimp only
  rcases added : signed.tree.appendFile ca.files.cert (BundleFiles.ofIdentity i).chain with
    e | last
  · exact changes
  apply changes.trans
  apply appendFile_filesChanged _ added
  intro l goal
  -- The chain that is added to was made by the last call, at a place that was free before.
  obtain ⟨keyed, requested, first, second, third⟩ := of_runOn_sign_ok done
  obtain ⟨place, mode, content, vacant, _⟩ := signer.of_call_ok third rfl
  have before := changes_of_call signer (changes_of_call signer (.refl _ _) first trivial) second
    trivial
  have same : requested.tree.goal? (BundleFiles.ofIdentity i).chain = some place :=
    FileTree.goal?_of_vacancy? vacant
  rw [FileTree.goal?_of_sameWays (signer.sameWays_of_call third rfl), same] at goal
  cases goal
  exact Spare.of_changed before (.inl (FileTree.get?_of_vacancy? vacant))

theorem link_of_prepared (h : prepared authority leaf i t = (.ok subject, t')) :
    ∃ target, t'.entryAt (BundleFiles.ofIdentity i).link = .ok (.link target) := by
  obtain ⟨_, _, _, _, linked⟩ := of_prepared_ok h
  exact ⟨_, FileTree.entryAt_of_makeLink linked⟩

def SameEntry (p : Path) (t t' : FileTree) : Prop :=
  ∃ e, t.entryAt p = .ok e ∧ t'.entryAt p = .ok e

theorem sameEntry_iff :
    SameEntry p t t' ↔
      (t.entryAt p).toOption.isSome = true ∧ (t'.entryAt p).toOption = (t.entryAt p).toOption := by
  constructor
  · rintro ⟨e, before, after⟩
    rw [before, after]
    exact ⟨rfl, rfl⟩
  · rintro ⟨there, same⟩
    obtain ⟨e, before⟩ := Option.isSome_iff_exists.1 there
    exact ⟨e, eq_ok_of_toOption before, eq_ok_of_toOption (same.trans before)⟩

instance : Decidable (SameEntry p t t') := decidable_of_iff _ sameEntry_iff.symm

/-- The parts of a bundle and the authority's certificate are the same in both trees. -/
structure SameBundle (authority : AuthorityFiles) (files : BundleFiles) (t t' : FileTree) :
    Prop where
  parts : ∀ p ∈ files.link :: files.made, SameEntry p t t'
  cert : SameFile authority.cert t t'

instance : Decidable (SameBundle authority files t t') :=
  decidable_of_iff
    ((∀ p ∈ files.link :: files.made, SameEntry p t t') ∧ SameFile authority.cert t t')
    ⟨fun ⟨parts, cert⟩ => ⟨parts, cert⟩, fun ⟨parts, cert⟩ => ⟨parts, cert⟩⟩

theorem SameEntry.trans (h : SameEntry p t t') (h' : SameEntry p t' t'') : SameEntry p t t'' := by
  obtain ⟨e, before, between⟩ := h
  obtain ⟨e', between', after⟩ := h'
  cases between.symm.trans between'
  exact ⟨e, before, after⟩

theorem SameBundle.trans (h : SameBundle authority files t t')
    (h' : SameBundle authority files t' t'') : SameBundle authority files t t'' :=
  ⟨fun p hp => (h.parts p hp).trans (h'.parts p hp), h.cert.trans h'.cert⟩

theorem Complete.sameBundle (complete : Complete authority files t) :
    SameBundle authority files t t := by
  obtain ⟨_, _, content, _, read⟩ := complete.chain
  refine ⟨fun p hp => ?_, content, read, read⟩
  rcases List.mem_cons.1 hp with rfl | hp
  · obtain ⟨target, entry⟩ := complete.link
    exact ⟨_, entry, entry⟩
  · obtain ⟨mode, content, entry⟩ := complete.made p hp
    exact ⟨_, entry, entry⟩

theorem Complete.of_sameBundle (complete : Complete authority files t)
    (same : SameBundle authority files t t') : Complete authority files t' := by
  have kept (p : Path) (hp : p ∈ files.link :: files.made) {e : Entry}
      (entry : t.entryAt p = .ok e) : t'.entryAt p = .ok e := by
    obtain ⟨e', before, after⟩ := same.parts p hp
    cases entry.symm.trans before
    exact after
  refine ⟨fun p hp => ?_, ?_, ?_⟩
  · obtain ⟨mode, content, entry⟩ := complete.made p hp
    exact ⟨mode, content, kept p (List.mem_cons_of_mem _ hp) entry⟩
  · obtain ⟨target, entry⟩ := complete.link
    exact ⟨target, kept _ (by simp) entry⟩
  · obtain ⟨mode, bytes, content, entry, read⟩ := complete.chain
    obtain ⟨content', before, after⟩ := same.cert
    cases read.symm.trans before
    exact ⟨mode, bytes, content, kept _ (by simp [BundleFiles.made]) entry, after⟩

theorem Complete.sameBundle_of_changes {within : Location → Prop}
    (complete : Complete authority files t) (changes : t.FilesChanged within t')
    (outside : ∀ p ∈ authority.cert :: files.made, ∀ l, t.goal? p = some l → ¬within l) :
    SameBundle authority files t t' := by
  refine ⟨fun p hp => ?_, ?_⟩
  · rcases List.mem_cons.1 hp with rfl | hp
    · obtain ⟨target, entry⟩ := complete.link
      exact ⟨_, entry, changes.entryAt entry (by simp) (by simp [Entry.isFile])⟩
    · obtain ⟨mode, content, entry⟩ := complete.made p hp
      refine ⟨_, entry, changes.entryAt entry (by simp) fun _ => ?_⟩
      exact outside p (List.mem_cons_of_mem _ hp)
  · obtain ⟨_, _, content, _, read⟩ := complete.chain
    exact ⟨content, read, changes.read read (outside _ (by simp))⟩

theorem file_of_keeping (ways : t.SameWays t')
    (keeps : ∀ l, t'.get? l = none → t.get? l = none)
    (file : ∃ mode content, t.entryAt p = .ok (.file mode content)) :
    ∃ mode content, t'.entryAt p = .ok (.file mode content) := by
  obtain ⟨mode, content, entry⟩ := file
  obtain ⟨place, slash, looked⟩ := FileTree.entryAt_eq_ok.1 entry
  have there := FileTree.get?_of_lookup_taken looked (by simp)
  have unway := (ways.way place).trans (FileTree.way?_eq_none.2 (.inr ⟨_, _, there⟩))
  rcases FileTree.way?_eq_none.1 unway with free | ⟨mode', content', now⟩
  · cases there.symm.trans (keeps place free)
  · exact ⟨mode', content', FileTree.entryAt_eq_ok.2
      ⟨place, slash, FileTree.lookup_rewritten ways.keeps looked now⟩⟩

theorem file_of_call {serial : Path} {c : SigningCall} {result : Except SigningError Unit}
    (signer : s.Creates serial) (called : (s c).runOn w = (result, after))
    (counts : c.CountsAt serial)
    (file : ∃ mode content, w.tree.entryAt p = .ok (.file mode content)) :
    ∃ mode content, after.tree.entryAt p = .ok (.file mode content) := by
  have keeps := (signer c counts).keeps w
  rw [called] at keeps
  exact file_of_keeping (signer.makesAnew.sameWays_of_call called counts) keeps file

theorem file_of_call_ok {serial : Path} {c : SigningCall} (signer : s.Creates serial)
    (called : (s c).runOn w = (.ok (), after)) (counts : c.CountsAt serial) :
    ∃ mode content, after.tree.entryAt c.out = .ok (.file mode content) := by
  obtain ⟨place, mode, content, vacant, made⟩ := signer.makesAnew.of_call_ok called counts
  have ways := signer.makesAnew.sameWays_of_call called counts
  exact ⟨mode, content, (entryAt_of_vacancy? ways.keeps vacant made).1⟩

theorem sign_complete (signer : s.Creates ca.files.serial)
    (done : (sign s ca leaf subject files).runOn w = (.ok (), after)) :
    ∀ p ∈ files.made, ∃ mode content, after.tree.entryAt p = .ok (.file mode content) := by
  obtain ⟨keyed, requested, first, second, third⟩ := of_runOn_sign_ok done
  have key := file_of_call_ok signer first trivial
  have request := file_of_call_ok signer second trivial
  have chain := file_of_call_ok signer third rfl
  simp only [BundleFiles.made, List.forall_mem_cons]
  exact ⟨file_of_call signer third rfl (file_of_call signer second trivial key),
    file_of_call signer third rfl request, chain, by simp⟩

theorem appendFile_puts {source goal : Path} (h : t.appendFile source goal = .ok t') :
    ∃ place mode content, t.way? place = none ∧ t' = t.put place (.file mode content) := by
  obtain ⟨content, place, mode, old, slash, _, looked, rfl⟩ := FileTree.of_appendFile_ok h
  exact ⟨place, mode, _, FileTree.way?_of_goal? (FileTree.goal?_of_file looked), rfl⟩

/-- The certificate is read at the end of a chain that it was added to, even where the two are one
    file. -/
theorem chain_of_appendFile {mode : FileMode} {bytes : Bytes}
    (entry : t.entryAt files.chain = .ok (.file mode bytes))
    (added : t.appendFile authority.cert files.chain = .ok t') :
    ∃ mode bytes content, t'.entryAt files.chain = .ok (.file mode (bytes ++ content)) ∧
      t'.read authority.cert = .ok content := by
  obtain ⟨cert, goal, _, _, _, read, looked, rfl⟩ := FileTree.of_appendFile_ok added
  obtain ⟨_, _, named⟩ := FileTree.entryAt_eq_ok.1 entry
  cases looked.symm.trans (FileTree.lookup_reach_of_file named)
  have unway := FileTree.way?_of_goal? (FileTree.goal?_of_file looked)
  have changes : t.FilesChanged (· = goal) (t.put goal (.file mode (bytes ++ cert))) :=
    FileTree.filesChanged_put unway
  have now := FileTree.get?_put_of_unway (e := .file mode (bytes ++ cert)) unway
  have chain : (t.put goal _).entryAt files.chain = .ok (.file mode (bytes ++ cert)) :=
    FileTree.entryAt_eq_ok.2
      ⟨goal, _, FileTree.lookup_rewritten changes.sameWays.keeps named now⟩
  obtain ⟨source, certMode, certSlash, certLooked⟩ := FileTree.read_eq_ok.1 read
  by_cases same : source = goal
  · subst same
    refine ⟨mode, [], bytes ++ cert, chain, FileTree.read_eq_ok.2 ⟨source, mode, certSlash, ?_⟩⟩
    exact FileTree.lookup_rewritten changes.sameWays.keeps certLooked now
  · refine ⟨mode, bytes, cert, chain, changes.read read fun l goal' => ?_⟩
    cases (FileTree.goal?_of_file certLooked).symm.trans goal'
    exact same

theorem issue_complete (signer : s.Creates ca.files.serial)
    (issued : (issue s ca leaf i).runOn w = (.ok files, after)) :
    Complete ca.files files after.tree := by
  obtain ⟨signed, ⟨subject, t, ready, done⟩, rfl, added⟩ := of_issue_ok issued
  have made := sign_complete signer done
  obtain ⟨target, link⟩ := link_of_prepared ready
  have changes := issue_changes signer.makesAnew leaf i w
  rw [ready, issued] at changes
  refine ⟨fun p hp => ?_, ⟨target, ?_⟩, ?_⟩
  · obtain ⟨place, mode, content, unway, put⟩ := appendFile_puts added
    rw [put]
    apply file_of_keeping (FileTree.filesChanged_put unway).sameWays _ (made p hp)
    intro l free
    rwa [FileTree.get?_put_of_ne] at free
    rintro rfl
    cases (FileTree.get?_put_of_unway unway).symm.trans free
  · exact changes.entryAt link (by simp) (by simp [Entry.isFile])
  · obtain ⟨mode, bytes, entry⟩ :=
      made (BundleFiles.ofIdentity i).chain (by simp [BundleFiles.made])
    exact chain_of_appendFile entry added

/-- Preparing a bundle for `j` leaves another bundle as it is, and once that is done the path of
    the serial number does not lead to one of its files or to the certificate. -/
structure Spares (authority : AuthorityFiles) (leaf : LeafSettings) (j : Identity)
    (files : BundleFiles) (t : FileTree) : Prop where
  kept : SameBundle authority files t (prepared authority leaf j t).2
  apart : (prepared authority leaf j t).1.toBool = true → ∀ p ∈ authority.cert :: files.made,
    (prepared authority leaf j t).2.goal? authority.serial ≠ (prepared authority leaf j t).2.goal? p

instance : Decidable (Spares authority leaf j files t) :=
  decidable_of_iff
    (SameBundle authority files t (prepared authority leaf j t).2 ∧
      ((prepared authority leaf j t).1.toBool = true → ∀ p ∈ authority.cert :: files.made,
        (prepared authority leaf j t).2.goal? authority.serial ≠
          (prepared authority leaf j t).2.goal? p))
    ⟨fun ⟨kept, apart⟩ => ⟨kept, apart⟩, fun ⟨kept, apart⟩ => ⟨kept, apart⟩⟩

theorem Complete.sameFile (complete : Complete authority files t)
    (same : SameBundle authority files t t') :
    ∀ p ∈ authority.cert :: files.made, SameFile p t t' := by
  intro p hp
  rcases List.mem_cons.1 hp with rfl | hp
  · exact same.cert
  · obtain ⟨e, before, after⟩ := same.parts p (List.mem_cons_of_mem _ hp)
    obtain ⟨mode, content, entry⟩ := complete.made p hp
    cases before.symm.trans entry
    exact ⟨content, FileTree.read_of_entryAt before, FileTree.read_of_entryAt after⟩

theorem Spares.sameBundle (spares : Spares ca.files leaf j files w.tree)
    (complete : Complete ca.files files w.tree) (signer : s.MakesAnew ca.files.serial) :
    SameBundle ca.files files w.tree ((issue s ca leaf j).runOn w).2.tree := by
  have changes := issue_changes signer leaf j w
  obtain ⟨kept, apart⟩ := spares
  rcases ready : prepared ca.files leaf j w.tree with ⟨e | subject, start⟩ <;>
    rw [ready] at kept apart changes
  · rw [runOn_issue, ready]
    exact kept
  · have complete := complete.of_sameBundle kept
    apply kept.trans
    apply complete.sameBundle_of_changes changes
    rintro p hp l goal (free | counter)
    · obtain ⟨content, read, _⟩ := complete.sameFile complete.sameBundle p hp
      obtain ⟨place, mode, slash, looked⟩ := FileTree.read_eq_ok.1 read
      cases goal.symm.trans (FileTree.goal?_of_file looked)
      cases (FileTree.get?_of_lookup_taken looked (by simp)).symm.trans free
    · exact apart rfl p hp (counter.trans goal.symm)

theorem refusing_creates (serial : Path) : refusing.Creates serial := fun _ _ => .throw _

theorem spoiling_creates (serial : Path) (content : Bytes) :
    (spoiling serial serial content).Creates serial := by
  intro c _
  rw [spoiling, if_pos (.inr rfl)]
  exact (Work.Writes.write _ _).andAdds fun _ => .throw _

theorem apart_of_sameBundle (complete : Complete ca.files files t)
    (kept : ∀ s : Signer Unit, s.Creates ca.files.serial →
      SameBundle ca.files files t ((issue s ca leaf j).runOn ⟨t, ()⟩).2.tree)
    (ready : prepared ca.files leaf j t = (.ok subject, t'))
    (spared : SameBundle ca.files files t t') (hp : p ∈ ca.files.cert :: files.made) :
    t'.goal? ca.files.serial ≠ t'.goal? p := by
  intro same
  obtain ⟨old, before, between⟩ := complete.sameFile spared p hp
  obtain ⟨place, mode, slash, looked⟩ := FileTree.read_eq_ok.1 between
  have goal := FileTree.goal?_of_file looked
  obtain ⟨mode', spoiled⟩ := FileTree.write_of_goal? (same.trans goal) (old ++ [0])
  obtain ⟨content, before', after⟩ := complete.sameFile
    (kept _ (spoiling_creates ca.files.serial (old ++ [0]))) p hp
  cases before.symm.trans before'
  rw [issue_spoiling (by simp [outputs]) ready spoiled] at after
  have equal := FileTree.read_put_of_goal? goal after
  simp at equal

/-- The signers that make their outputs anew leave a complete bundle as it is while they make
    another one, if and only if that one spares it. -/
theorem keeps_bundle_iff (complete : Complete ca.files files t) :
    (∀ (σ : Type) (s : Signer σ) (memory : σ), s.Creates ca.files.serial →
      SameBundle ca.files files t ((issue s ca leaf j).runOn ⟨t, memory⟩).2.tree) ↔
    Spares ca.files leaf j files t := by
  constructor
  · intro kept
    have spared : SameBundle ca.files files t (prepared ca.files leaf j t).2 := by
      have refused := kept Unit refusing () (refusing_creates _)
      rw [runOn_issue] at refused
      rcases ready : prepared ca.files leaf j t with ⟨e | subject, start⟩ <;>
        simp only [ready] at refused <;> exact refused
    refine ⟨spared, fun done p hp => ?_⟩
    rcases ready : prepared ca.files leaf j t with ⟨e | subject, start⟩ <;>
      rw [ready] at spared done
    · cases done
    · exact apart_of_sameBundle complete (kept Unit · ()) ready spared hp
  · intro spares σ s memory signer
    exact Spares.sameBundle (w := ⟨t, memory⟩) spares complete signer.makesAnew

/-- The bundle of `i` is made again, for an identity with the same directory and name, and its
    link is spared or made again. -/
structure Renews (s : Signer σ) (ca : AuthoritySettings) (leaf : LeafSettings) (j i : Identity)
    (w : World σ) : Prop where
  dir : j.dir = i.dir
  name : j.name = i.name
  issued : ((issue s ca leaf j).runOn w).1.toBool = true
  link : ∃ target,
    (prepared ca.files leaf j w.tree).2.entryAt (BundleFiles.ofIdentity i).link = .ok (.link target)

theorem Renews.complete (renews : Renews s ca leaf j i w) (signer : s.Creates ca.files.serial) :
    Complete ca.files (.ofIdentity i) ((issue s ca leaf j).runOn w).2.tree := by
  obtain ⟨dir, name, issued, target, link⟩ := renews
  have changes := issue_changes signer.makesAnew leaf j w
  rcases ran : (issue s ca leaf j).runOn w with ⟨e | files, after⟩ <;> rw [ran] at issued changes
  · cases issued
  obtain ⟨_, _, rfl, _⟩ := of_issue_ok ran
  have complete := issue_complete signer ran
  have chain : (BundleFiles.ofIdentity j).chain = (BundleFiles.ofIdentity i).chain := by
    simp [BundleFiles.ofIdentity, dir, name]
  have made : (BundleFiles.ofIdentity j).made = (BundleFiles.ofIdentity i).made := by
    simp [BundleFiles.made, BundleFiles.ofIdentity, dir, name]
  exact ⟨made ▸ complete.made, ⟨target, changes.entryAt link (by simp) (by simp [Entry.isFile])⟩,
    chain ▸ complete.chain⟩

end NetworkCa.Bundle
