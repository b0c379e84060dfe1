import NetworkCa.Proofs.Authority.Stages
import NetworkCa.Proofs.Bundle.Alike

namespace NetworkCa

open FileTree (NoNewLinks SameDirectories)

variable {t t' u : FileTree} {X : Location → Prop} {failOn : Option String}
  {w w' after : World (Unit × List SigningCall)}

theorem FileTree.ensureDirectory_cases {p : Path} (h : t.ensureDirectory p = .ok t') :
    t' = t ∨ ∃ place, t.get? place = none ∧ t' = t.put place .directory := by
  unfold FileTree.ensureDirectory at h
  split at h
  · exact .inl (Except.ok.inj h).symm
  split at h
  · next made =>
    cases h
    right
    unfold FileTree.makeDirectory at made
    split at made
    · next looked => exact ⟨_, FileTree.get?_of_lookup_free looked, (Except.ok.inj made).symm⟩
    · cases made
    · cases made
  · cases h

theorem FileTree.ensureDirectory_links {p : Path} (h : t.ensureDirectory p = .ok t') :
    t'.cwd = t.cwd ∧ NoNewLinks t t' := by
  rcases FileTree.ensureDirectory_cases h with rfl | ⟨place, free, rfl⟩
  · exact ⟨rfl, fun _ _ => id⟩
  · refine ⟨rfl, fun l target linked => ?_⟩
    by_cases same : l = place
    · subst same
      rw [FileTree.get?_put_of_unway (FileTree.way?_eq_none.2 (.inl free))] at linked
      cases linked
    · rwa [FileTree.get?_put_of_ne same] at linked

theorem Signer.of_recording_ok {c : SigningCall}
    (h : (Signer.recording failOn false c).runOn w = (.ok (), after)) :
    w.tree.write c.out (Text.Utf8.encode (Signer.placeholder c)) = .ok after.tree := by
  rw [Signer.runOn_recording] at h
  dsimp only at h
  split at h
  · cases h
  rcases written : w.tree.write c.out (Text.Utf8.encode (Signer.placeholder c)) with failure | t <;>
    rw [written] at h <;> cases h
  rfl

namespace Authority

variable {s : Signer (Unit × List SigningCall)} {settings : AuthoritySettings} {subject : Subject}
  {files : AuthorityFiles}

theorem of_found_ok (h : (found s settings subject).runOn w = (.ok (), after)) :
    ∃ keyed, (s (.key settings.method settings.keyPassphrase settings.files.key)).runOn w =
        (.ok (), keyed) ∧
      (s (.selfSign settings.files.key settings.keyPassphrase subject validityDays
        settings.requestConfig settings.files.cert)).runOn keyed = (.ok (), after) := by
  obtain ⟨_, keyed, first, second⟩ := Work.of_runOn_bind_ok h
  exact ⟨keyed, Bundle.of_runOn_call_ok first, Bundle.of_runOn_call_ok second⟩

structure Grounded (settings : AuthoritySettings) (t : FileTree) : Prop where
  straight : t.Straight settings.files.cert
  cert : ∃ mode content, t.get? (t.site settings.files.cert) = some (.file mode content)

theorem bootstrap_grounded
    (unlinked : w.tree.Unlinked (w.tree.start settings.files.cert)
      settings.files.cert.steps.dropLast)
    (ran : (bootstrap (.recording failOn false) settings).runOn w = (.ok files, after)) :
    Grounded settings after.tree ∧ NoNewLinks w.tree after.tree ∧ after.tree.cwd = w.tree.cwd := by
  obtain ⟨-, subject, u, ready, done⟩ := of_bootstrap_ok ran
  obtain ⟨-, made, ensured, cleared⟩ := of_cleaned_ok ready
  obtain ⟨keyed, first, second⟩ := of_found_ok done
  obtain ⟨cwd, links⟩ := FileTree.ensureDirectory_links ensured
  have absent := Bundle.absent_of_cleared cleared settings.files.cert (by simp)
  have removal := Bundle.cleared_removes
    [settings.files.key, settings.files.cert, settings.files.serial] made
  rw [cleared] at removal
  have keying := Signer.recording_changes failOn
    (.key settings.method settings.keyPassphrase settings.files.key) ⟨u, w.memory⟩
  rw [first] at keying
  have written := Signer.of_recording_ok second
  have before := (links.trans removal.noNewLinks).trans keying.sameWays.noNewLinks
  have place : keyed.tree.cwd = w.tree.cwd := keying.cwd.trans (removal.cwd.trans cwd)
  have straight : keyed.tree.Straight settings.files.cert := by
    refine FileTree.straight_of_write ?_ written
    rw [FileTree.start_congr place]
    exact unlinked.congr before
  have free := (straight.congr keying.sameWays.sameDirectories.symm).get?_of_absent absent
  obtain ⟨mode, last⟩ := straight.of_write (fun target linked => by
    have earlier := keying.sameWays.noNewLinks _ _ linked
    rw [FileTree.site_congr keying.cwd] at earlier
    cases earlier.symm.trans free) written
  have ways : keyed.tree.SameWays after.tree :=
    (FileTree.FilesChanged.of_write written).1.sameWays
  refine ⟨⟨straight.congr ways.sameDirectories, mode,
    Text.Utf8.encode Signer.placeholderCert, ?_⟩, before.trans ways.noNewLinks,
    ways.cwd.trans place⟩
  rw [FileTree.site_congr ways.cwd, last]
  exact FileTree.get?_put_self straight.site_ne_root

end Authority

end NetworkCa
