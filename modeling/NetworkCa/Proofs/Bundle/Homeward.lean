import NetworkCa.Proofs.Bundle.Alike
import NetworkCa.Proofs.FileTree.Seats

namespace NetworkCa.Bundle

open FileTree (AgreeOutside Homing SameDirectories)

variable {ca : AuthoritySettings} {leaf : LeafSettings}
  {subject : Subject} {base t u : FileTree} {w w' : World (Unit × List SigningCall)}
  {i : Identity} {l : Location} {X : Location → Prop}

structure Rooted (ca : AuthoritySettings) (base : FileTree) : Prop where
  filename : '/' ∉ ca.filename.toList
  cwd : ∀ s ∈ base.cwd, PlainName s
  paved : base.Paved (base.start ca.dir) ca.dir.steps
  seated : base.Seated (base.site ca.dir)
  cert : ∃ mode content, base.get? (base.site ca.files.cert) = some (.file mode content)

theorem Rooted.named (rooted : Rooted ca base) : PlainName (ca.filename ++ ".pem") :=
  plainName_append rooted.filename ⟨by decide, by decide, by decide, by decide⟩ (by decide)

theorem Rooted.straight (rooted : Rooted ca base) : base.Straight ca.files.cert :=
  FileTree.straight_file rooted.paved rooted.named

theorem Rooted.leads (rooted : Rooted ca base) (leaf : LeafSettings) (plain : i.Plain) :
    base.Leads (base.site (BundleFiles.ofIdentity i).link) ⟨Path.linkTarget leaf.linkStyle base.cwd
      i.dir ca.files.dir ca.files.certName⟩ (base.site ca.files.cert) := by
  have name : ca.files.certName = ca.filename ++ ".pem" := by
    rw [AuthorityFiles.certName, AuthoritySettings.files, AuthorityFiles.ofName,
      Path.fileName?_file _ rooted.named]
    rfl
  have site : base.site ca.files.cert = base.site ca.dir ++ [ca.filename ++ ".pem"] :=
    FileTree.site_file base ca.dir rooted.named
  rw [name, site, BundleFiles.ofIdentity, FileTree.site_file base i.dir plain.caLink]
  exact FileTree.leads_linkTarget leaf.linkStyle rooted.cwd i.dir rooted.seated rooted.named _

/-- A tree with the directories of `base`, where every new link leads to the certificate. -/
structure Homeward (ca : AuthoritySettings) (base t : FileTree) : Prop where
  directories : SameDirectories base t
  links : ∀ l target, t.get? l = some (.link target) →
    base.get? l = some (.link target) ∨ base.Leads l target (base.site ca.files.cert)

theorem Homeward.refl (ca : AuthoritySettings) (base : FileTree) : Homeward ca base base :=
  ⟨.refl base, fun _ _ linked => .inl linked⟩

theorem Homeward.cert_leads (homeward : Homeward ca base t) (rooted : Rooted ca base)
    {target : Path} (linked : t.get? (base.site ca.files.cert) = some (.link target)) :
    base.Leads (base.site ca.files.cert) target (base.site ca.files.cert) := by
  obtain ⟨mode, content, file⟩ := rooted.cert
  rcases homeward.links _ _ linked with old | leads
  · cases old.symm.trans file
  · exact leads

theorem Homeward.paved (homeward : Homeward ca base t) (rooted : Rooted ca base) (plain : i.Plain)
    (unlinked : base.Unlinked (base.start i.dir) i.dir.steps)
    (ready : prepared ca.files leaf i t = (.ok subject, u)) :
    t.Paved (t.start i.dir) i.dir.steps := by
  apply paved_of_prepared plain ready
  intro tidy same kept l hl target linked
  have directories := homeward.directories.trans same
  rw [FileTree.start_congr homeward.directories.cwd] at hl
  rcases homeward.links l target (kept l _ linked) with old | leads
  · exact absurd old (unlinked l hl target)
  apply (leads.congr directories).deadEnd
  · obtain ⟨mode, content, file⟩ := rooted.cert
    intro directory
    cases file.symm.trans ((directories.iff _).1 directory)
  · intro target linked
    exact (homeward.cert_leads rooted (kept _ _ linked)).congr directories

theorem Homeward.route (homeward : Homeward ca base t) (rooted : Rooted ca base) (plain : i.Plain)
    (paved : t.Paved (t.start i.dir) i.dir.steps) (tidied : Tidied ca.files leaf i t u)
    {p : Path} (hp : p ∈ ca.files.cert :: (BundleFiles.ofIdentity i).made)
    {purpose : FileTree.Purpose} (hl : l ∈ u.route purpose p) :
    base.get? l = some .directory ∨ l ∈ sites base i ∨ l = base.site ca.files.cert := by
  have cwd := homeward.directories.cwd
  have same := tidied.sameDirectories
  have directories := homeward.directories.trans same
  have homing : Homing (fun l => l ∈ sites base i ∨ l = base.site ca.files.cert)
      (base.site ca.files.cert) u := by
    refine ⟨.inr rfl, fun l inside target linked => ?_⟩
    apply FileTree.Leads.congr directories
    by_cases own : l ∈ sites t i
    · by_cases link : l = t.site (BundleFiles.ofIdentity i).link
      · rw [link, tidied.link] at linked
        cases linked
        rw [link, FileTree.site_congr cwd, cwd]
        exact rooted.leads leaf plain
      · rw [tidied.gone l own link] at linked
        cases linked
    · rw [tidied.kept l own] at linked
      rw [sites_congr cwd] at own
      obtain rfl := inside.resolve_left own
      exact homeward.cert_leads rooted linked
  have arrives (straight : u.Straight p)
      (inside : base.site p ∈ sites base i ∨ base.site p = base.site ca.files.cert) :
      base.get? l = some .directory ∨ l ∈ sites base i ∨ l = base.site ca.files.cert := by
    rw [← FileTree.site_congr directories.cwd] at inside
    exact (straight.route_homing homing inside l hl).imp_left (directories.iff l).1
  rcases List.mem_cons.1 hp with rfl | hp
  · exact arrives (rooted.straight.congr directories) (.inr rfl)
  · exact arrives ((straight_of_mem_stale plain paved p (mem_stale_of_made hp)).congr same)
      (.inl (mem_sites_of_made base hp))

theorem Homeward.issue (failOn : Option String) (homeward : Homeward ca base w.tree)
    (rooted : Rooted ca base) (plain : i.Plain)
    (unlinked : base.Unlinked (base.start i.dir) i.dir.steps)
    (ready : prepared ca.files leaf i w.tree = (.ok subject, u)) :
    Homeward ca base ((issue (.recording failOn false) ca leaf i).runOn w).2.tree ∧
      ∀ l, l ∉ sites base i → l ≠ base.site ca.files.cert →
        ((issue (.recording failOn false) ca leaf i).runOn w).2.tree.get? l = w.tree.get? l := by
  have cwd := homeward.directories.cwd
  have paved := homeward.paved rooted plain unlinked ready
  have tidied := tidied_of_prepared plain paved ready
  obtain ⟨same, links⟩ := issue_leaves failOn tidied ready
  refine ⟨⟨homeward.directories.trans same, fun l target linked => ?_⟩, fun l outside other => ?_⟩
  · rcases links l target linked with old | ⟨rfl, rfl⟩
    · exact homeward.links l target old
    · rw [FileTree.site_congr cwd, cwd]
      exact .inr (rooted.leads leaf plain)
  · have routes : ∀ p ∈ (BundleFiles.ofIdentity i).made, ∀ l ∈ u.route .write p,
        w.tree.get? l = some .directory ∨ l ∈ sites base i ∨ l = base.site ca.files.cert :=
      fun p hp l hl => (homeward.route rooted plain paved tidied (List.mem_cons_of_mem _ hp)
        hl).imp_left (homeward.directories.iff l).2
    apply issue_frame_of_routes failOn tidied ready routes
    · rwa [sites_congr cwd]
    · exact not_or.2 ⟨outside, other⟩

/-- In two trees with the same directories and the same certificate, the same comes of a bundle, and
    its sites are the same then. -/
theorem Homeward.issue_alike (failOn : Option String) (homeward : Homeward ca base w.tree)
    (rooted : Rooted ca base) (plain : i.Plain)
    (unlinked : base.Unlinked (base.start i.dir) i.dir.steps)
    (ready : prepared ca.files leaf i w.tree = (.ok subject, u))
    (same : SameDirectories w.tree w'.tree) (agree : w.tree.AgreeOutside X w'.tree)
    (inert : ∀ l, X l → l ≠ base.site ca.files.cert ∧ base.get? l ≠ some .directory) :
    AlikeRuns (fun l => X l ∧ l ∉ sites base i)
        ((Bundle.issue (.recording failOn false) ca leaf i).runOn w)
        ((Bundle.issue (.recording failOn false) ca leaf i).runOn w') ∧
      SameDirectories ((Bundle.issue (.recording failOn false) ca leaf i).runOn w).2.tree
        ((Bundle.issue (.recording failOn false) ca leaf i).runOn w').2.tree := by
  have paved := homeward.paved rooted plain unlinked ready
  have tidied := tidied_of_prepared plain paved ready
  obtain ⟨_, ready', tidied'⟩ := prepared_tidied plain paved ready same
  have own {p : Path} (hp : p ∈ ca.files.cert :: (BundleFiles.ofIdentity i).made)
      (purpose : FileTree.Purpose) : ∀ l ∈ u.route purpose p, X l → l ∈ sites w.tree i := by
    intro l hl changed
    obtain ⟨other, content⟩ := inert l changed
    rw [sites_congr homeward.directories.cwd]
    rcases homeward.route rooted plain paved tidied hp hl with directory | inside | rfl
    · exact absurd directory content
    · exact inside
    · exact absurd rfl other
  have read : ∀ p ∈ [ca.files.cert, (BundleFiles.ofIdentity i).chain], ∀ l ∈ u.route .reach p,
      X l → l ∈ sites w.tree i := by
    simp only [List.forall_mem_cons]
    exact ⟨own (by simp) .reach, own (by simp [BundleFiles.made]) .reach, by simp⟩
  have alike := Bundle.issue_alike failOn plain paved ready same agree
    (fun p hp => own (List.mem_cons_of_mem _ hp) .write) read
  rw [sites_congr homeward.directories.cwd] at alike
  refine ⟨alike, ?_⟩
  exact (issue_leaves failOn tidied ready).1.symm.trans
    (same.trans (issue_leaves failOn tidied' ready').1)

end NetworkCa.Bundle
