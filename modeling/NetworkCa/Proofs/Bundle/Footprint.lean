import NetworkCa.Proofs.Bundle.Aftermath
import NetworkCa.Proofs.Bundle.Survival
import NetworkCa.Proofs.FileTree.Confined

namespace NetworkCa

open FileTree (Confined KeepsWays)

variable {σ : Type} {s : Signer σ} {t u tidy : FileTree} {i : Identity} {w after : World σ}

namespace FileTree

variable {d : Path} {name : String} {spot : Spot}

theorem place_of_file (there : t.exists? d = true) (plain : PlainName name)
    (h : t.lookup .occupy (d.file name) = .ok spot) :
    ∃ directory slash, t.lookup .reach d = .ok (.taken directory .directory slash) ∧
      spot.place = directory ++ [name] := by
  have walked : ∀ (t' : FileTree) (purpose : Purpose), t'.lookup purpose d =
      t'.walk purpose maxLinks (t'.start d) d.steps d.endsInSlash := by
    rcases reached : t.lookup .reach d with failure | found
    · rw [exists?, behind, reached] at there
      cases there
    · exact walk_of_lookup_ok reached
  rw [walk_of_lookup_ok h, Path.steps_file d plain.ne_empty plain.no_slash,
    start_file t d plain.no_slash] at h
  rcases walk_front t maxLinks (t.start d) d.steps with
    ⟨failure, fails⟩ | ⟨directory, fewer, onward⟩
  · rw [fails _ _ _ (by simp)] at h
    cases h
  rw [onward _ _ _ (by simp)] at h
  have stay : t.walk .reach maxLinks (t.start d) (d.steps ++ ["."]) false =
      .ok (.taken directory .directory false) := by
    rw [onward _ _ _ (by simp), walk_enter move_dot, walk_nil]
  obtain ⟨slash, reached⟩ := walk_reach_of_dot d.endsInSlash stay
  exact ⟨directory, slash, (walked t .reach).trans reached,
    place_of_walk_last (by simp [plain.ne_current, plain.ne_parent])
      (by simp [Purpose.follows]) h⟩

end FileTree

namespace Bundle

variable {ca : AuthoritySettings} {authority : AuthorityFiles} {leaf : LeafSettings}
  {subject : Subject} {files : BundleFiles} {serial : Path}

/-- The places of a bundle's six names in the directory of its identity. -/
def Footprint (i : Identity) (t : FileTree) (l : Location) : Prop :=
  ∃ directory slash, t.lookup .reach i.dir = .ok (.taken directory .directory slash) ∧
    ∃ n ∈ staleNames i, l = directory ++ [n]

/-- The place that the serial number's path leads to once a bundle is prepared. -/
def Counted (authority : AuthorityFiles) (leaf : LeafSettings) (i : Identity) (t : FileTree)
    (l : Location) : Prop :=
  ∃ subject u, prepared authority leaf i t = (.ok subject, u) ∧ u.goal? authority.serial = some l

theorem footprint_of_lookup (plain : i.Plain) (there : t.exists? i.dir = true) {n : String}
    (hn : n ∈ staleNames i) {spot : FileTree.Spot}
    (h : t.lookup .occupy (i.dir.file n) = .ok spot) : Footprint i t spot.place := by
  obtain ⟨directory, slash, reached, place⟩ :=
    FileTree.place_of_file there (plainName_of_mem_staleNames plain n hn) h
  exact ⟨directory, slash, reached, n, hn, place⟩

theorem cleared_confined (plain : i.Plain) (there : t.exists? i.dir = true) :
    Confined (Footprint i t) t (cleared (BundleFiles.ofIdentity i).stale t).2 := by
  apply ((cleared_removes _ t).confined _).mono
  · rintro l ⟨p, hp, named⟩
    obtain ⟨n, hn, rfl⟩ := List.mem_map.1 (stale_eq i ▸ hp)
    obtain ⟨e, _, looked⟩ := FileTree.named?_eq_some.1 named
    exact footprint_of_lookup plain there hn looked
  · rintro l ⟨p, _, named⟩ directory
    obtain ⟨e, other, looked⟩ := FileTree.named?_eq_some.1 named
    exact other (Option.some.inj ((FileTree.get?_of_lookup_taken looked other).symm.trans directory))

theorem footprint_of_vacancy? (plain : i.Plain) (there : t.exists? i.dir = true)
    (tidied : cleared (BundleFiles.ofIdentity i).stale t = (.ok (), tidy)) {n : String}
    (hn : n ∈ staleNames i) {l : Location} (vacant : tidy.vacancy? (i.dir.file n) = some l) :
    Footprint i t l := by
  have removal := cleared_removes (BundleFiles.ofIdentity i).stale t
  rw [tidied] at removal
  have ways : KeepsWays tidy t := by
    refine ⟨removal.cwd.symm, fun m e way => ?_⟩
    obtain ⟨entry, unfiled⟩ := FileTree.way?_eq_some.1 way
    exact FileTree.way?_eq_some.2 ⟨removal.get? entry, unfiled⟩
  have looked := FileTree.lookup_of_vacancy? ways vacant .occupy (by simp [FileTree.Purpose.follows])
  rcases entry : t.get? l with _ | e <;> rw [entry] at looked <;>
    exact footprint_of_lookup plain there hn looked

def Made (serial : Path) (files : BundleFiles) (u : FileTree) (l : Location) : Prop :=
  (∃ p ∈ files.made, u.vacancy? p = some l) ∨ u.goal? serial = some l

theorem made_of_call {c : SigningCall} {result : Except SigningError Unit}
    (signer : s.MakesAnew serial) (hc : c.out ∈ files.made) (counts : c.CountsAt serial)
    (called : (s c).runOn w = (result, after))
    (changes : u.FilesChanged (Made serial files u) w.tree) :
    u.FilesChanged (Made serial files u) after.tree := by
  have more := (signer c counts).changes w
  rw [called] at more
  apply changes.trans
  apply more.mono
  rintro l (vacant | goal)
  · exact (changes.vacancy?_before vacant).elim (fun before => .inl ⟨c.out, hc, before⟩) id
  · exact .inr ((FileTree.goal?_of_sameWays changes.sameWays serial).symm.trans goal)

theorem sign_made (signer : s.MakesAnew ca.files.serial) (leaf : LeafSettings)
    (subject : Subject) (files : BundleFiles) (w : World σ) :
    w.tree.FilesChanged (Made ca.files.serial files w.tree)
      ((sign s ca leaf subject files).runOn w).2.tree :=
  sign_keeps (fun _ _ hc counts => made_of_call signer hc counts rfl) (.refl _ _)

theorem made_of_chain (signer : s.MakesAnew ca.files.serial)
    (done : (sign s ca leaf subject files).runOn w = (.ok (), after)) {l : Location}
    (goal : after.tree.goal? files.chain = some l) : Made ca.files.serial files w.tree l := by
  obtain ⟨keyed, requested, first, second, third⟩ := of_runOn_sign_ok done
  obtain ⟨place, _, _, vacant, _⟩ := signer.of_call_ok third rfl
  have own : files.key ∈ files.made ∧ files.request ∈ files.made ∧ files.chain ∈ files.made := by
    simp [BundleFiles.made]
  have key := made_of_call (c := .key ca.method none files.key) signer own.1 trivial first
    (.refl (Made ca.files.serial files w.tree) w.tree)
  have request := made_of_call (c := .request files.key subject ca.requestConfig files.request)
    signer own.2.1 trivial second key
  have same : requested.tree.goal? files.chain = some place := FileTree.goal?_of_vacancy? vacant
  rw [FileTree.goal?_of_sameWays (signer.sameWays_of_call third rfl), same] at goal
  cases goal
  exact (request.vacancy?_before vacant).elim
    (fun before => .inl ⟨files.chain, own.2.2, before⟩) id

/-- Issuing changes files where there was room for the bundle's own once it was prepared, and where
    the serial number's path leads then. -/
theorem issue_made (signer : s.MakesAnew ca.files.serial)
    (ready : prepared ca.files leaf i w.tree = (.ok subject, u)) :
    u.FilesChanged (Made ca.files.serial (.ofIdentity i) u) ((issue s ca leaf i).runOn w).2.tree := by
  rw [runOn_issue, ready]
  dsimp only
  have changes := sign_made signer leaf subject (.ofIdentity i) ⟨u, w.memory⟩
  rcases done : (sign s ca leaf subject (.ofIdentity i)).runOn ⟨u, w.memory⟩ with
    ⟨e | _, signed⟩ <;> rw [done] at changes
  · exact changes
  dsimp only
  rcases added : signed.tree.appendFile ca.files.cert (BundleFiles.ofIdentity i).chain with
    e | last
  · exact changes
  · exact changes.trans (appendFile_filesChanged (fun l => made_of_chain signer done) added)

theorem footprint_of_made (plain : i.Plain)
    (ready : prepared authority leaf i t = (.ok subject, u)) {l : Location}
    (made : Made authority.serial (.ofIdentity i) u l) :
    Footprint i t l ∨ u.goal? authority.serial = some l := by
  rcases made with ⟨p, hp, vacant⟩ | goal
  · obtain ⟨there, _, tidy, tidied, linked⟩ := of_prepared_ok ready
    obtain ⟨place, free, made⟩ := FileTree.of_makeLink_ok linked
    obtain ⟨directory, _, room⟩ := room_of_cleared plain (absent_of_cleared tidied) free
    obtain ⟨n, hn, rfl⟩ : ∃ n ∈ staleNames i, p = i.dir.file n := by
      simp only [BundleFiles.made, List.mem_cons, List.not_mem_nil, or_false] at hp
      rcases hp with rfl | rfl | rfl <;> refine ⟨_, ?_, rfl⟩ <;> simp [staleNames]
    have keeps : KeepsWays tidy u :=
      made ▸ FileTree.keepsWays_put_free (FileTree.get?_of_vacancy? free)
    rw [FileTree.vacancy?_eq_some, FileTree.lookup_of_vacancy? keeps (room n hn) .occupy
      (by simp [FileTree.Purpose.follows])] at vacant
    obtain rfl : l = directory ++ [n] := (FileTree.arrive_ok vacant).1
    exact .inl (footprint_of_vacancy? plain there tidied hn (room n hn))
  · exact .inr goal

theorem prepared_confined (plain : i.Plain) :
    Confined (Footprint i t) t (prepared authority leaf i t).2 := by
  unfold prepared
  dsimp only
  split; · exact .refl _ _
  next present =>
  have there : t.exists? i.dir = true := by simpa using present
  split; · exact .refl _ _
  have clearing := cleared_confined plain there
  split
  · next tidied =>
    rw [tidied] at clearing
    exact clearing
  next tidied =>
  rw [tidied] at clearing
  split
  · next linked =>
    apply clearing.trans
    apply (FileTree.confined_of_makeLink linked).mono
    exact fun l => footprint_of_vacancy? plain there tidied (by simp [staleNames])
  · exact clearing

theorem issue_confined_counted (plain : i.Plain) (signer : s.MakesAnew ca.files.serial)
    (leaf : LeafSettings) (w : World σ) :
    Confined (fun l => Footprint i w.tree l ∨ Counted ca.files leaf i w.tree l) w.tree
      ((issue s ca leaf i).runOn w).2.tree := by
  have preparing : Confined (fun l => Footprint i w.tree l ∨ Counted ca.files leaf i w.tree l)
      w.tree (prepared ca.files leaf i w.tree).2 :=
    (prepared_confined plain).mono fun _ => .inl
  rcases ready : prepared ca.files leaf i w.tree with ⟨e | subject, u⟩ <;> rw [ready] at preparing
  · rw [runOn_issue, ready]
    exact preparing
  · apply preparing.trans
    apply (issue_made signer ready).confined.mono
    intro l made
    exact (footprint_of_made plain ready made).imp_right fun goal => ⟨subject, u, ready, goal⟩

/-- Where the serial number's path leads elsewhere than to the bundle's places and to its own file
    of before, a signer that counts spoils what is there. -/
theorem inside_of_confined {within : Location → Prop}
    (kept : ∀ s : Signer Unit, s.MakesAnew ca.files.serial →
      Confined within t ((issue s ca leaf i).runOn ⟨t, ()⟩).2.tree) {l : Location}
    (counted : Counted ca.files leaf i t l) : within l := by
  obtain ⟨subject, u, ready, goal⟩ := counted
  refine Classical.byContradiction fun outside => ?_
  have spoiled (content : Bytes) : ∃ mode, t.get? l = some (.file mode content) := by
    obtain ⟨mode, done⟩ := FileTree.write_of_goal? goal content
    have frame := (kept _ (spoiling_creates ca.files.serial content).makesAnew).frame l outside
    rw [issue_spoiling (by simp [outputs]) ready done,
      FileTree.get?_put_of_unway (FileTree.way?_of_goal? goal)] at frame
    exact ⟨mode, frame.symm⟩
  obtain ⟨mode, before⟩ := spoiled []
  obtain ⟨mode', before'⟩ := spoiled [0]
  simp [before] at before'

/-- Issuing changes nothing but the six names in the identity's directory and the file that the
    serial number's path leads to when the signer is called. That this is the file it led to before,
    or one of the six, is needed for the tree to be otherwise unchanged, and suffices. -/
theorem issue_confined (plain : i.Plain) (ca : AuthoritySettings) (leaf : LeafSettings)
    (t : FileTree) :
    (∀ (σ : Type) (s : Signer σ) (memory : σ), s.MakesAnew ca.files.serial →
      Confined (fun l => Footprint i t l ∨ Counted ca.files leaf i t l) t
        ((issue s ca leaf i).runOn ⟨t, memory⟩).2.tree) ∧
    ((∀ (σ : Type) (s : Signer σ) (memory : σ), s.MakesAnew ca.files.serial →
      Confined (fun l => Footprint i t l ∨ t.goal? ca.files.serial = some l) t
        ((issue s ca leaf i).runOn ⟨t, memory⟩).2.tree) ↔
      ∀ l, Counted ca.files leaf i t l → Footprint i t l ∨ t.goal? ca.files.serial = some l) := by
  have frame (σ : Type) (s : Signer σ) (memory : σ) (signer : s.MakesAnew ca.files.serial) :=
    issue_confined_counted plain signer leaf ⟨t, memory⟩
  refine ⟨frame, fun kept l counted => ?_, fun inside σ s memory signer => ?_⟩
  · exact inside_of_confined (kept Unit · ()) counted
  · exact (frame σ s memory signer).mono fun l => (Or.elim · .inl (inside l))

theorem issue_confined_of_client :
    Confined (fun l => Footprint Sample.client Sample.tree l ∨
        Counted Sample.authority.files Sample.settings Sample.client Sample.tree l)
      Sample.tree ((issue (.stamping [3] [4] Sample.authority.files.serial) Sample.authority
        Sample.settings Sample.client).runOn ⟨Sample.tree, ()⟩).2.tree := by
  have plain : Sample.client.Plain :=
    ⟨by decide, by decide, by decide, by decide, by decide⟩
  exact (issue_confined plain Sample.authority Sample.settings Sample.tree).1 Unit _ ()
    (Signer.stamping_makesAnew _ _ _)

end Bundle

end NetworkCa
