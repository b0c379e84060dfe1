import NetworkCa.Proofs.Bundle.Alike
import NetworkCa.Proofs.Bundle.Chain
import NetworkCa.Proofs.FileTree.Seats

namespace NetworkCa.Bundle

open FileTree (NoNewLinks SameDirectories SameWays)

variable {σ : Type} {s : Signer σ} {ca : AuthoritySettings} {leaf : LeafSettings} {i : Identity}
  {w after : World σ} {files : BundleFiles} {subject : Subject} {t u : FileTree}

/-- The link of a bundle and the certificate of the authority stand in the very directories that the
    target of the link is made for, and these are reached through no link. -/
structure InPlace (ca : AuthoritySettings) (i : Identity) (t : FileTree) : Prop where
  cwd : t.Seated t.cwd
  own : ∃ name, (BundleFiles.ofIdentity i).link.absolute t.cwd = i.dir.absolute t.cwd ++ [name]
  home : ca.files.cert.absolute t.cwd = ca.dir.absolute t.cwd ++ [ca.files.certName]
  leafWay : t.Unlinked (t.start (BundleFiles.ofIdentity i).link)
    (BundleFiles.ofIdentity i).link.steps.dropLast
  rootWay : t.Unlinked (t.start ca.files.cert) ca.files.cert.steps.dropLast
  aside : t.site (BundleFiles.ofIdentity i).link ∉
    FileTree.waypoints (t.start ca.files.cert) ca.files.cert.steps.dropLast

theorem inPlace_of_plain (plain : i.Plain) (filename : '/' ∉ ca.filename.toList)
    (cwd : t.Seated t.cwd) (leafWay : t.Unlinked (t.start i.dir) i.dir.steps)
    (rootWay : t.Unlinked (t.start ca.dir) ca.dir.steps)
    (aside : t.site i.dir ++ [i.caLink] ∉ FileTree.waypoints (t.start ca.dir) ca.dir.steps) :
    InPlace ca i t := by
  have named : PlainName (ca.filename ++ ".pem") :=
    plainName_append filename ⟨by decide, by decide, by decide, by decide⟩ (by decide)
  have names : ∀ s ∈ t.cwd, PlainName s := fun s hs => (cwd.names s hs).1
  have steps {d : Path} {name : String} (named : PlainName name) :
      (d.file name).steps.dropLast = d.steps := by
    rw [Path.steps_file d named.ne_empty named.no_slash, List.dropLast_concat]
  have link : (BundleFiles.ofIdentity i).link = i.dir.file i.caLink := rfl
  have cert : ca.files.cert = ca.dir.file (ca.filename ++ ".pem") := rfl
  have certName : ca.files.certName = ca.filename ++ ".pem" := by
    rw [AuthorityFiles.certName, cert, Path.fileName?_file _ named]
    rfl
  refine ⟨cwd, ⟨i.caLink, ?_⟩, ?_, ?_, ?_, ?_⟩
  · rw [link, FileTree.absolute_eq_site names, FileTree.absolute_eq_site names,
      FileTree.site_file t i.dir plain.caLink]
  · rw [certName, cert, FileTree.absolute_eq_site names, FileTree.absolute_eq_site names,
      FileTree.site_file t ca.dir named]
  · rwa [link, FileTree.start_file t i.dir plain.caLink.no_slash, steps plain.caLink]
  · rwa [cert, FileTree.start_file t ca.dir named.no_slash, steps named]
  · rwa [cert, FileTree.start_file t ca.dir named.no_slash, steps named, link,
      FileTree.site_file t i.dir plain.caLink]

theorem sign_filesOnly (signer : s.FilesOnly ca.files.serial)
    (done : (sign s ca leaf subject files).runOn w = (.ok (), after)) :
    w.tree.SameWays after.tree := by
  have kept : w.tree.SameWays ((sign s ca leaf subject files).runOn w).2.tree := by
    apply sign_keeps _ (.refl _)
    intro c between _ counts ways
    exact ways.trans (signer c counts between)
  rwa [done] at kept

/-- What is left of a bundle that is issued: the link as it was made, the certificate, and the
    links and directories there were. -/
theorem of_issue_filesOnly (signer : s.FilesOnly ca.files.serial)
    (issued : (issue s ca leaf i).runOn w = (.ok files, after)) :
    ∃ tidy u content, NoNewLinks w.tree tidy ∧ SameDirectories w.tree tidy ∧
      tidy.makeLink ⟨Path.linkTarget leaf.linkStyle w.tree.cwd i.dir ca.dir ca.files.certName⟩
        (BundleFiles.ofIdentity i).link = .ok u ∧
      SameWays u after.tree ∧ after.tree.read ca.files.cert = .ok content := by
  obtain ⟨signed, ⟨subject, u, ready, done⟩, rfl, added⟩ := of_issue_ok issued
  obtain ⟨_, _, tidy, tidied, linked⟩ := of_prepared_ok ready
  have removal := cleared_removes (BundleFiles.ofIdentity i).stale w.tree
  have same := cleared_sameDirectories (BundleFiles.ofIdentity i).stale w.tree
  rw [tidied] at removal same
  rw [same.cwd] at linked
  have ways := sign_filesOnly signer done
  have appended : signed.tree.FilesChanged (fun _ => True) after.tree :=
    appendFile_filesChanged (fun _ _ => trivial) added
  obtain ⟨content, place, mode, old, slash, read, looked, result⟩ := FileTree.of_appendFile_ok added
  have file := FileTree.get?_of_lookup_taken looked (by simp)
  obtain ⟨found, still⟩ : ∃ found, after.tree.read ca.files.cert = .ok found :=
    result ▸ FileTree.read_put_of_file file read
  exact ⟨tidy, u, found, removal.noNewLinks, same, linked, ways.trans appended.sameWays, still⟩

/-- The link of a bundle that is issued is read like the certificate of the authority, provided
    that the certificate is not behind as many links already as are followed at all. -/
theorem read_link_of_issue (signer : s.FilesOnly ca.files.serial) (inPlace : InPlace ca i w.tree)
    (issued : (issue s ca leaf i).runOn w = (.ok files, after))
    (near : after.tree.walk .reach (FileTree.maxLinks - 1) (after.tree.start ca.files.cert)
      ca.files.cert.steps ca.files.cert.endsInSlash ≠ .error .linkLoop) :
    ∃ content, after.tree.read ca.files.cert = .ok content ∧
      after.tree.read (BundleFiles.ofIdentity i).link = .ok content := by
  obtain ⟨tidy, u, content, oldLinks, same, linked, ways, read⟩ := of_issue_filesOnly signer issued
  obtain ⟨cwd, ⟨name, own⟩, home, leafWay, rootWay, aside⟩ := inPlace
  have later : SameDirectories tidy after.tree :=
    (FileTree.sameDirectories_of_makeLink linked).trans ways.sameDirectories
  have directories := same.trans later
  have entry := ways.entryAt_link (FileTree.entryAt_of_makeLink linked)
  obtain ⟨place, vacant, _⟩ := FileTree.of_makeLink_ok linked
  rw [← FileTree.start_congr same.cwd] at leafWay
  have straight := FileTree.straight_of_vacancy? (leafWay.congr oldLinks) vacant
  obtain ⟨rfl, _⟩ := straight.makeLink linked
  -- The one link that is new does not stand on the way to the certificate.
  have newLinks : ∀ l target, after.tree.get? l = some (.link target) →
      l = w.tree.site (BundleFiles.ofIdentity i).link ∨ w.tree.get? l = some (.link target) := by
    intro l target there
    have linked := ways.noNewLinks l target there
    by_cases new : l = tidy.site (BundleFiles.ofIdentity i).link
    · exact .inl (new.trans (FileTree.site_congr same.cwd))
    · rw [FileTree.get?_put_of_ne new] at linked
      exact .inr (oldLinks l target linked)
  have unlinked : after.tree.Unlinked (after.tree.start ca.files.cert)
      ca.files.cert.steps.dropLast := by
    rw [FileTree.start_congr directories.cwd]
    intro l hl target there
    rcases newLinks l target there with rfl | old
    · exact aside hl
    · exact rootWay l hl target old
  have certStraight := FileTree.straight_of_read unlinked read
  -- So the certificate's directory is the one that the link's target names.
  rw [← directories.cwd] at cwd own home entry
  have names : ∀ s ∈ after.tree.cwd, PlainName s := fun s hs => (cwd.names s hs).1
  have seated := certStraight.seated (cwd.congr directories)
  have last : ca.files.certName ∈ ca.files.cert.absolute after.tree.cwd := by simp [home]
  have named := Path.plainName_of_mem_absolute last
  rw [FileTree.absolute_eq_site names, FileTree.absolute_eq_site names] at own home
  rw [home, Location.parent, List.dropLast_concat] at seated
  have leads := FileTree.leads_linkTarget leaf.linkStyle names i.dir seated named name
  rw [← own, ← home] at leads
  obtain ⟨goal, mode, slash, found⟩ := FileTree.read_eq_ok.1 read
  have reached := (straight.congr later).lookup_reach_link entry leads
    (Path.endsInSlash_linkTarget _ _ _ _ named) certStraight near found
  exact ⟨content, read, FileTree.read_eq_ok.2 ⟨goal, mode, slash, reached⟩⟩

theorem read_link_of_client :
    ∃ files after, (issue Sample.signer Sample.authority Sample.settings Sample.client).runOn
        ⟨Sample.tree, ()⟩ = (.ok files, after) ∧
      ∃ content, after.tree.read Sample.authority.files.cert = .ok content ∧
        after.tree.read (BundleFiles.ofIdentity Sample.client).link = .ok content := by
  have plain : Sample.client.Plain :=
    ⟨by decide, by decide, by decide, by decide, by decide⟩
  have inPlace : InPlace Sample.authority Sample.client Sample.tree :=
    inPlace_of_plain plain (by decide) (FileTree.seated_root _) (by decide +kernel)
      (by decide +kernel) (by decide +kernel)
  have signer : Sample.signer.FilesOnly Sample.authority.files.serial :=
    (Signer.stamping_makesAnew _ _ _).writesOnly.filesOnly
  obtain ⟨after, issued, once⟩ : ∃ after,
      (issue Sample.signer Sample.authority Sample.settings Sample.client).runOn
          ⟨Sample.tree, ()⟩ = (.ok (.ofIdentity Sample.client), after) ∧
        after.tree.walk .reach (FileTree.maxLinks - 1)
            (after.tree.start Sample.authority.files.cert) Sample.authority.files.cert.steps
            Sample.authority.files.cert.endsInSlash =
          .ok (.taken ["CA", "ca.pem"] (.file .plain [2]) false) :=
    ⟨_, Prod.ext (eq_ok_of_toOption (by decide +kernel)) rfl,
      eq_ok_of_toOption (by decide +kernel)⟩
  have near : after.tree.walk .reach (FileTree.maxLinks - 1)
      (after.tree.start Sample.authority.files.cert) Sample.authority.files.cert.steps
      Sample.authority.files.cert.endsInSlash ≠ .error .linkLoop := by simp [once]
  exact ⟨_, after, issued, read_link_of_issue signer inPlace issued near⟩

end NetworkCa.Bundle
