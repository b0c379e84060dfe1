import NetworkCa.Proofs.Bundle.Alike
import NetworkCa.Proofs.FileTree.Seats

namespace NetworkCa

open FileTree (AgreeOutside SameDirectories)

namespace Bundle

variable {t u : FileTree} {authority : AuthorityFiles} {leaf : LeafSettings} {i : Identity}
  {p : Path} {l : Location}

def Distinct (i : Identity) : Prop :=
  (BundleFiles.ofIdentity i).link ∉ (BundleFiles.ofIdentity i).made

instance (i : Identity) : Decidable (Distinct i) := inferInstanceAs (Decidable (_ ∉ _))

theorem Tidied.get?_of_made (tidied : Tidied authority leaf i t u) (plain : i.Plain)
    (distinct : Distinct i) (hp : p ∈ (BundleFiles.ofIdentity i).made) :
    u.get? (t.site p) = none := by
  apply tidied.gone _ (mem_sites_of_made t hp)
  intro same
  obtain ⟨n, hn, rfl⟩ := List.mem_map.1 (stale_eq i ▸ mem_stale_of_made hp)
  rw [BundleFiles.ofIdentity, FileTree.site_file t i.dir (plainName_of_mem_staleNames plain n hn),
    FileTree.site_file t i.dir plain.caLink] at same
  obtain rfl : n = i.caLink := by simpa using same
  exact distinct hp

theorem Tidied.route_of_made (tidied : Tidied authority leaf i t u) (plain : i.Plain)
    (distinct : Distinct i) (paved : t.Paved (t.start i.dir) i.dir.steps)
    (hp : p ∈ (BundleFiles.ofIdentity i).made) {purpose : FileTree.Purpose}
    (hl : l ∈ u.route purpose p) : t.get? l = some .directory ∨ l ∈ sites t i := by
  have same := tidied.sameDirectories
  have straight := (straight_of_mem_stale plain paved p (mem_stale_of_made hp)).congr same
  have free := tidied.get?_of_made plain distinct hp
  rcases straight.route (fun target => by
    rw [FileTree.site_congr same.cwd, free]
    simp) hl with directory | rfl
  · exact .inl ((same.iff l).1 directory)
  · rw [FileTree.site_congr same.cwd]
    exact .inr (mem_sites_of_made t hp)

section Recording

variable {failOn : Option String} {ca : AuthoritySettings} {subject : Subject}
  {base w : World (Unit × List SigningCall)} {done : List Identity} {j : Identity}

theorem issue_frame (plain : i.Plain) (distinct : Distinct i)
    (paved : w.tree.Paved (w.tree.start i.dir) i.dir.steps)
    (ready : prepared ca.files leaf i w.tree = (.ok subject, u)) (outside : l ∉ sites w.tree i) :
    ((issue (.recording failOn false) ca leaf i).runOn w).2.tree.get? l = w.tree.get? l := by
  have tidied := tidied_of_prepared plain paved ready
  exact issue_frame_of_routes failOn tidied ready
    (fun p hp l hl => tidied.route_of_made plain distinct paved hp hl) outside outside

/-- A bundle that can be prepared and does not touch the authority's certificate. -/
structure Issuable (ca : AuthoritySettings) (leaf : LeafSettings) (t : FileTree) (i : Identity) :
    Prop where
  plain : i.Plain
  distinct : Distinct i
  paved : t.Paved (t.start i.dir) i.dir.steps
  ready : ∃ subject u, prepared ca.files leaf i t = (.ok subject, u)
  aside : ∀ l ∈ t.route .reach ca.files.cert, l ∈ sites t i → t.get? l = some .directory

/-- A tree that has each of some bundles as it would be if it alone were made, and is otherwise as
    it was. -/
structure Overlaid (failOn : Option String) (ca : AuthoritySettings) (leaf : LeafSettings)
    (base : World (Unit × List SigningCall)) (done : List Identity) (t : FileTree) : Prop where
  directories : SameDirectories base.tree t
  bundles : ∀ j ∈ done, ∀ l ∈ sites base.tree j,
    t.get? l = ((issue (.recording failOn false) ca leaf j).runOn base).2.tree.get? l
  others : ∀ l, (∀ j ∈ done, l ∉ sites base.tree j) → t.get? l = base.tree.get? l

theorem Overlaid.nil : Overlaid failOn ca leaf base [] base.tree :=
  ⟨.refl _, by simp, fun _ _ => rfl⟩

def Overlaps (base : FileTree) (done : List Identity) (l : Location) : Prop :=
  (∃ j ∈ done, l ∈ sites base j) ∧ base.get? l ≠ some .directory

theorem Overlaid.agreeOutside (overlaid : Overlaid failOn ca leaf base done t) :
    base.tree.AgreeOutside (Overlaps base.tree done) t := by
  apply AgreeOutside.sharpen _ overlaid.directories
  exact ⟨overlaid.directories.cwd, fun l outside =>
    overlaid.others l fun j hj inside => outside ⟨j, hj, inside⟩⟩

theorem Issuable.route_cert (issuable : Issuable ca leaf t i)
    (tidied : Tidied ca.files leaf i t u) :
    u.route .reach ca.files.cert = t.route .reach ca.files.cert := by
  apply FileTree.route_congr tidied.cwd
  intro l hl
  by_cases inside : l ∈ sites t i
  · have directory := issuable.aside l hl inside
    rw [directory, (tidied.sameDirectories.iff l).2 directory]
  · exact tidied.kept l inside

/-- Whatever bundles there are already, one more comes to what it would be alone. -/
theorem Overlaid.alike (overlaid : Overlaid failOn ca leaf base done w.tree)
    (issuable : Issuable ca leaf base.tree i)
    (earlier : ∀ j ∈ done, Issuable ca leaf base.tree j) :
    AlikeRuns (fun l => Overlaps base.tree done l ∧ l ∉ sites base.tree i)
      ((issue (.recording failOn false) ca leaf i).runOn base)
      ((issue (.recording failOn false) ca leaf i).runOn w) := by
  obtain ⟨subject, u, ready⟩ := issuable.ready
  have tidied := tidied_of_prepared issuable.plain issuable.paved ready
  have made (purpose : FileTree.Purpose) : ∀ p ∈ (BundleFiles.ofIdentity i).made,
      ∀ l ∈ u.route purpose p, Overlaps base.tree done l → l ∈ sites base.tree i := by
    intro p hp l hl overlaps
    exact (tidied.route_of_made issuable.plain issuable.distinct issuable.paved hp hl).resolve_left
      overlaps.2
  have cert : ∀ l ∈ u.route .reach ca.files.cert,
      Overlaps base.tree done l → l ∈ sites base.tree i := by
    rintro l hl ⟨⟨j, hj, inside⟩, other⟩
    rw [issuable.route_cert tidied] at hl
    exact absurd ((earlier j hj).aside l hl inside) other
  apply issue_alike failOn issuable.plain issuable.paved ready overlaid.directories
    overlaid.agreeOutside (made .write)
  simp only [List.forall_mem_cons]
  exact ⟨cert, made .reach _ (by simp [BundleFiles.made]), by simp⟩

theorem Overlaid.issue (overlaid : Overlaid failOn ca leaf base done w.tree)
    (issuable : Issuable ca leaf base.tree i) (earlier : ∀ j ∈ done, Issuable ca leaf base.tree j)
    (apart : ∀ j ∈ done, j ≠ i → ∀ l ∈ sites base.tree j, l ∉ sites base.tree i) :
    Overlaid failOn ca leaf base (done ++ [i])
      ((Bundle.issue (.recording failOn false) ca leaf i).runOn w).2.tree := by
  have same := overlaid.directories
  obtain ⟨subject, u, ready⟩ := issuable.ready
  obtain ⟨u', ready', tidied'⟩ := prepared_tidied issuable.plain issuable.paved ready same
  have agree := (overlaid.alike issuable earlier).2
  have kept {l : Location} (outside : l ∉ sites base.tree i) :
      ((Bundle.issue (.recording failOn false) ca leaf i).runOn w).2.tree.get? l =
        w.tree.get? l := by
    apply issue_frame issuable.plain issuable.distinct ?_ ready'
    · rwa [sites_congr same.cwd]
    · rw [FileTree.start_congr same.cwd]
      exact issuable.paved.congr same
  refine ⟨same.trans (issue_leaves failOn tidied' ready').1, fun j hj l hl => ?_,
    fun l outside => ?_⟩
  · rw [List.mem_append, List.mem_singleton] at hj
    by_cases inside : l ∈ sites base.tree i
    · obtain rfl : j = i := by
        rcases hj with hj | rfl
        · by_cases own : j = i
          · exact own
          · exact absurd inside (apart j hj own l hl)
        · rfl
      exact agree.get? l fun changed => changed.2 inside
    · have hj : j ∈ done := hj.resolve_right fun own => inside (own ▸ hl)
      rw [kept inside]
      exact overlaid.bundles j hj l hl
  · rw [kept (outside i (by simp))]
    exact overlaid.others l fun j hj => outside j (by simp [hj])

theorem Overlaid.links (overlaid : Overlaid failOn ca leaf base done t)
    (earlier : ∀ j ∈ done, Issuable ca leaf base.tree j) {target : Path}
    (linked : t.get? l = some (.link target)) :
    base.tree.get? l = some (.link target) ∨
      ∃ j ∈ done, l = base.tree.site (BundleFiles.ofIdentity j).link := by
  by_cases inside : ∃ j ∈ done, l ∈ sites base.tree j
  · obtain ⟨j, hj, inside⟩ := inside
    rw [overlaid.bundles j hj l inside] at linked
    obtain ⟨plain, -, paved, ⟨subject, u, ready⟩, -⟩ := earlier j hj
    have tidied := tidied_of_prepared plain paved ready
    rcases (issue_leaves failOn tidied ready).2 l target linked with old | ⟨place, _⟩
    · exact .inl old
    · exact .inr ⟨j, hj, place⟩
  · rw [overlaid.others l fun j hj inner => inside ⟨j, hj, inner⟩] at linked
    exact .inl linked

theorem Overlaid.sameEntries {done' : List Identity}
    (overlaid : Overlaid failOn ca leaf base done t)
    (overlaid' : Overlaid failOn ca leaf base done' u) (same : ∀ j, j ∈ done' ↔ j ∈ done) :
    t.SameEntries u := by
  refine ⟨overlaid'.directories.cwd.trans overlaid.directories.cwd.symm, fun l => ?_⟩
  by_cases inside : ∃ j ∈ done, l ∈ sites base.tree j
  · obtain ⟨j, hj, inside⟩ := inside
    rw [overlaid.bundles j hj l inside, overlaid'.bundles j ((same j).2 hj) l inside]
  · have outside (j : Identity) (hj : j ∈ done) (inner : l ∈ sites base.tree j) : False :=
      inside ⟨j, hj, inner⟩
    rw [overlaid.others l outside, overlaid'.others l fun j hj => outside j ((same j).1 hj)]

theorem Overlaid.entryAt {done' : List Identity} (overlaid : Overlaid failOn ca leaf base done t)
    (overlaid' : Overlaid failOn ca leaf base done' u) (issuable : Issuable ca leaf base.tree i)
    (hi : i ∈ done) (hi' : i ∈ done') (hp : p ∈ (BundleFiles.ofIdentity i).stale) :
    u.entryAt p = t.entryAt p := by
  have inside : base.tree.site p ∈ sites base.tree i := List.mem_map_of_mem hp
  apply (straight_of_mem_stale issuable.plain issuable.paved p hp).entryAt_congr
    overlaid.directories overlaid'.directories
  rw [overlaid.bundles i hi _ inside, overlaid'.bundles i hi' _ inside]

end Recording

end Bundle

end NetworkCa
