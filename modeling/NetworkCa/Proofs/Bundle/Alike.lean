import NetworkCa.Proofs.Bundle.Custody
import NetworkCa.Proofs.Signing.Recording

namespace NetworkCa

open FileTree (AgreeOutside AlikeOutside SameDirectories SameWays Straight Wiped)

variable {t t' u u' : FileTree} {X : Location → Prop} {i : Identity} {d : Path} {name : String}
  {paths : List Path}

structure Identity.Plain (i : Identity) : Prop where
  name : '/' ∉ i.name.toList
  caLink : PlainName i.caLink

namespace FileTree

theorem start_file (t : FileTree) (d : Path) (h : '/' ∉ name.toList) :
    t.start (d.file name) = t.start d := by
  rw [start, start, Path.isAbsolute_file d h]

theorem site_file (t : FileTree) (d : Path) (plain : PlainName name) :
    t.site (d.file name) = t.site d ++ [name] := by
  rw [site, start_file t d plain.no_slash, Path.steps_file d plain.ne_empty plain.no_slash,
    List.foldl_append, List.foldl_cons, List.foldl_nil, Path.follow_plain plain]
  rfl

theorem straight_file (paved : t.Paved (t.start d) d.steps) (plain : PlainName name) :
    t.Straight (d.file name) := by
  refine ⟨d.steps, name, Path.steps_file d plain.ne_empty plain.no_slash, ?_,
    Path.endsInSlash_file d plain.ne_empty plain.no_slash, ?_⟩
  · simp [plain.ne_current, plain.ne_parent]
  · rwa [start_file t d plain.no_slash]

theorem paved_of_straight_file (straight : t.Straight (d.file name)) (plain : PlainName name) :
    t.Paved (t.start d) d.steps := by
  obtain ⟨front, last, steps, _, _, paved⟩ := straight
  rw [Path.steps_file d plain.ne_empty plain.no_slash] at steps
  obtain ⟨rfl, _⟩ := List.append_inj' steps rfl
  rwa [start_file t d plain.no_slash] at paved

end FileTree

theorem plainName_append {stem ending : String} (h : '/' ∉ stem.toList)
    (plain : PlainName ending) (long : 3 ≤ ending.toList.length) : PlainName (stem ++ ending) := by
  have longer : 3 ≤ (stem ++ ending).toList.length := by
    rw [String.toList_append, List.length_append]
    omega
  refine ⟨?_, ?_, ?_, ?_⟩
  · rintro same
    simp [same] at longer
  · rintro same
    simp [same] at longer
  · rintro same
    simp [same] at longer
  · simp [h, plain.no_slash]

namespace Bundle

def staleNames (i : Identity) : List String :=
  [i.name ++ ".key", i.name ++ ".crt", i.name ++ ".csr", i.caLink, "ca.cer", i.name ++ ".pem"]

theorem stale_eq (i : Identity) :
    (BundleFiles.ofIdentity i).stale = (staleNames i).map i.dir.file := rfl

theorem plainName_of_mem_staleNames (plain : i.Plain) : ∀ n ∈ staleNames i, PlainName n := by
  have ending (e : String) (he : e ∈ [".key", ".crt", ".csr", ".pem"]) :
      PlainName (i.name ++ e) := by
    apply plainName_append plain.name
    · simp only [List.mem_cons, List.not_mem_nil, or_false] at he
      rcases he with rfl | rfl | rfl | rfl <;> exact ⟨by decide, by decide, by decide, by decide⟩
    · simp only [List.mem_cons, List.not_mem_nil, or_false] at he
      rcases he with rfl | rfl | rfl | rfl <;> decide
  simp only [staleNames, List.forall_mem_cons]
  exact ⟨ending _ (by simp), ending _ (by simp), ending _ (by simp), plain.caLink,
    ⟨by decide, by decide, by decide, by decide⟩, ending _ (by simp), by simp⟩

theorem straight_of_mem_stale (plain : i.Plain) (paved : t.Paved (t.start i.dir) i.dir.steps) :
    ∀ p ∈ (BundleFiles.ofIdentity i).stale, t.Straight p := by
  rw [stale_eq]
  intro p hp
  obtain ⟨name, hn, rfl⟩ := List.mem_map.1 hp
  exact FileTree.straight_file paved (plainName_of_mem_staleNames plain name hn)

theorem cleared_straight (straight : ∀ p ∈ paths, t.Straight p)
    (h : cleared paths t = (.ok (), u)) :
    (∀ l ∈ paths.map t.site, t.get? l ≠ some .directory) ∧ ∀ t', SameDirectories t t' →
      ∃ u', cleared paths t' = (.ok (), u') ∧ Wiped (paths.map t.site) t' u' := by
  induction paths generalizing t with
  | nil => exact ⟨by simp, fun t' _ => ⟨t', rfl, .refl t'⟩⟩
  | cons p rest ih =>
    rw [cleared] at h
    rcases first : t.removeStale p with e | r <;> simp only [first] at h
    · cases h
    obtain ⟨other, removed⟩ := (straight p (by simp)).removeStale first
    have after (t' : FileTree) (same : SameDirectories t t') {v : FileTree}
        (wiped : Wiped [t.site p] t' v) : SameDirectories t' v := by
      apply wiped.sameDirectories
      intro l hl directory
      obtain rfl : l = t.site p := by simpa using hl
      exact other ((same.iff _).1 directory)
    obtain ⟨_, again, wiped⟩ := removed t (.refl t)
    cases first.symm.trans again
    have between := after t (.refl t) wiped
    have sites : rest.map r.2.site = rest.map t.site :=
      List.map_congr_left fun q _ => FileTree.site_congr between.cwd
    obtain ⟨others, onward⟩ := ih (fun q hq => (straight q (by simp [hq])).congr between) h
    rw [sites] at others onward
    constructor
    · intro l hl directory
      rcases List.mem_cons.1 (List.map_cons ▸ hl) with rfl | hl
      · exact other directory
      · exact others l hl ((between.iff l).2 directory)
    · intro t' same
      obtain ⟨r', removed', wiped'⟩ := removed t' same
      obtain ⟨u', cleared', wiped''⟩ :=
        onward r'.2 (between.symm.trans (same.trans (after t' same wiped')))
      refine ⟨u', ?_, wiped'.cons wiped''⟩
      rw [cleared, removed']
      exact cleared'

variable {authority : AuthorityFiles} {ca : AuthoritySettings} {leaf : LeafSettings}
  {subject : Subject} {files : BundleFiles}

/-- Where the files and the link of an identity stand, and what is cleared with them. -/
def sites (t : FileTree) (i : Identity) : List Location :=
  (BundleFiles.ofIdentity i).stale.map t.site

theorem mem_stale_of_made {p : Path} (hp : p ∈ (BundleFiles.ofIdentity i).made) :
    p ∈ (BundleFiles.ofIdentity i).stale := by
  simp only [BundleFiles.made, List.mem_cons, List.not_mem_nil, or_false] at hp
  rcases hp with rfl | rfl | rfl <;> simp [BundleFiles.stale]

theorem mem_sites_of_made (t : FileTree) {p : Path} (hp : p ∈ (BundleFiles.ofIdentity i).made) :
    t.site p ∈ sites t i := List.mem_map_of_mem (mem_stale_of_made hp)

/-- The second tree is the first one with nothing at the sites of a bundle but its link. -/
structure Tidied (authority : AuthorityFiles) (leaf : LeafSettings) (i : Identity)
    (t u : FileTree) : Prop where
  cwd : u.cwd = t.cwd
  link : u.get? (t.site (BundleFiles.ofIdentity i).link) = some (.link ⟨Path.linkTarget
    leaf.linkStyle t.cwd i.dir authority.dir authority.certName⟩)
  gone : ∀ l ∈ sites t i, l ≠ t.site (BundleFiles.ofIdentity i).link → u.get? l = none
  kept : ∀ l ∉ sites t i, u.get? l = t.get? l
  others : ∀ l ∈ sites t i, t.get? l ≠ some .directory

theorem Tidied.sameDirectories (tidied : Tidied authority leaf i t u) : SameDirectories t u := by
  refine ⟨tidied.cwd, fun l => ?_⟩
  by_cases inside : l ∈ sites t i
  · have other : u.get? l ≠ some .directory := by
      by_cases same : l = t.site (BundleFiles.ofIdentity i).link
      · rw [same, tidied.link]
        simp
      · rw [tidied.gone l inside same]
        simp
    exact ⟨fun directory => absurd directory other,
      fun directory => absurd directory (tidied.others l inside)⟩
  · rw [tidied.kept l inside]

theorem sites_congr (cwd : t'.cwd = t.cwd) : sites t' i = sites t i :=
  List.map_congr_left fun _ _ => FileTree.site_congr cwd

theorem cleared_sameDirectories (paths : List Path) (t : FileTree) :
    SameDirectories t (cleared paths t).2 := by
  apply (cleared_removes paths t).sameDirectories
  rintro l ⟨q, _, named⟩ directory
  obtain ⟨e, other, looked⟩ := FileTree.named?_eq_some.1 named
  cases directory.symm.trans (FileTree.get?_of_lookup_taken looked other)
  exact other rfl

theorem prepared_tidied (plain : i.Plain) (paved : t.Paved (t.start i.dir) i.dir.steps)
    (ready : prepared authority leaf i t = (.ok subject, u)) (same : SameDirectories t t') :
    ∃ u', prepared authority leaf i t' = (.ok subject, u') ∧ Tidied authority leaf i t' u' := by
  obtain ⟨there, named, tidy, tidied, linked⟩ := of_prepared_ok ready
  have straight := straight_of_mem_stale plain paved
  obtain ⟨others, again⟩ := cleared_straight straight tidied
  obtain ⟨_, tidied', wiped⟩ := again t (.refl t)
  cases tidied.symm.trans tidied'
  obtain ⟨tidy', tidied', wiped'⟩ := again t' same
  have onward := wiped.sameDirectories others
  have others' : ∀ l ∈ sites t i, t'.get? l ≠ some .directory :=
    fun l hl directory => others l hl ((same.iff l).1 directory)
  have link : (BundleFiles.ofIdentity i).link ∈ (BundleFiles.ofIdentity i).stale := by
    simp [BundleFiles.stale]
  have inside : t.site (BundleFiles.ofIdentity i).link ∈ sites t i := List.mem_map_of_mem link
  obtain ⟨_, made⟩ := ((straight _ link).congr onward).makeLink linked
  rw [FileTree.site_congr onward.cwd] at made
  have linked' := made tidy' (onward.symm.trans (same.trans (wiped'.sameDirectories others')))
    (wiped'.gone _ inside)
  have cwd : tidy'.cwd = t'.cwd := wiped'.cwd
  rw [onward.cwd, ← same.cwd, ← cwd] at linked'
  refine ⟨_,
    prepared_ok ((FileTree.exists?_congr same paved).trans there) named tidied' linked', ?_⟩
  have below := (straight _ link).site_ne_root
  rw [cwd]
  have place : t'.site (BundleFiles.ofIdentity i).link = t.site (BundleFiles.ofIdentity i).link :=
    FileTree.site_congr same.cwd
  refine ⟨wiped'.cwd, ?_, fun l hl other => ?_, fun l outside => ?_, ?_⟩
  · rw [place]
    exact FileTree.get?_put_self below
  · rw [place] at other
    rw [sites_congr same.cwd] at hl
    rw [FileTree.get?_put_of_ne other]
    exact wiped'.gone l hl
  · rw [sites_congr same.cwd] at outside
    have other : l ≠ t.site (BundleFiles.ofIdentity i).link := by
      rintro rfl
      exact outside inside
    rw [FileTree.get?_put_of_ne other]
    exact wiped'.kept l outside
  · rw [sites_congr same.cwd]
    exact others'

theorem tidied_of_prepared (plain : i.Plain) (paved : t.Paved (t.start i.dir) i.dir.steps)
    (ready : prepared authority leaf i t = (.ok subject, u)) : Tidied authority leaf i t u := by
  obtain ⟨_, again, tidied⟩ := prepared_tidied plain paved ready (.refl t)
  cases ready.symm.trans again
  exact tidied

theorem paved_of_prepared (plain : i.Plain)
    (ready : prepared authority leaf i t = (.ok subject, u))
    (dead : ∀ tidy, SameDirectories t tidy →
      (∀ l e, tidy.get? l = some e → t.get? l = some e) →
      ∀ l ∈ FileTree.waypoints (t.start i.dir) i.dir.steps, ∀ target,
        tidy.get? l = some (.link target) → tidy.DeadEnd .occupy l target) :
    t.Paved (t.start i.dir) i.dir.steps := by
  obtain ⟨_, _, tidy, tidied, linked⟩ := of_prepared_ok ready
  have removal := cleared_removes (BundleFiles.ofIdentity i).stale t
  have same := cleared_sameDirectories (BundleFiles.ofIdentity i).stale t
  rw [tidied] at removal same
  obtain ⟨place, vacant, _⟩ := FileTree.of_makeLink_ok linked
  rw [FileTree.vacancy?_eq_some] at vacant
  have walked := FileTree.walk_of_lookup_ok vacant
  have caLink := plain.caLink
  rw [walked, BundleFiles.ofIdentity, FileTree.start_file tidy i.dir caLink.no_slash,
    Path.steps_file i.dir caLink.ne_empty caLink.no_slash, FileTree.start_congr same.cwd] at vacant
  apply FileTree.Paved.congr same.symm
  exact FileTree.paved_of_walk (fun _ => FileTree.ne_empty_of_mem_steps) (by simp)
    (dead tidy same fun l e => removal.get?) vacant

theorem Tidied.agreeOutside (agree : t.AgreeOutside X t') (tidied : Tidied authority leaf i t u)
    (tidied' : Tidied authority leaf i t' u') :
    u.AgreeOutside (fun l => X l ∧ l ∉ sites t i) u' := by
  have cwd := agree.cwd
  have place : t'.site (BundleFiles.ofIdentity i).link = t.site (BundleFiles.ofIdentity i).link :=
    FileTree.site_congr cwd
  refine ⟨tidied'.cwd.trans (cwd.trans tidied.cwd.symm), fun l outside => ?_⟩
  by_cases inside : l ∈ sites t i
  · have inside' : l ∈ sites t' i := (sites_congr cwd).symm ▸ inside
    by_cases same : l = t.site (BundleFiles.ofIdentity i).link
    · rw [same, tidied.link, ← place, tidied'.link, cwd]
    · rw [tidied.gone l inside same, tidied'.gone l inside' (place ▸ same)]
  · have outside' : l ∉ sites t' i := (sites_congr cwd).symm ▸ inside
    rw [tidied.kept l inside, tidied'.kept l outside']
    exact agree.get? l fun changed => outside ⟨changed, inside⟩

section Recording

variable {failOn : Option String} {w w' : World (Unit × List SigningCall)}

theorem call_alike (failOn : Option String) {c : SigningCall}
    (agree : w.tree.AgreeOutside X w'.tree)
    (avoids : ∀ l ∈ w.tree.route .write c.out, ¬X l) :
    AlikeRuns X ((Issuance.call (.recording failOn false) c).runOn w)
      ((Issuance.call (.recording failOn false) c).runOn w') := by
  obtain ⟨same, agree⟩ := Signer.recording_alike failOn agree avoids
  rw [Issuance.runOn_call, Issuance.runOn_call]
  rcases ran : (Signer.recording failOn false c).runOn w with ⟨result, after⟩
  rcases ran' : (Signer.recording failOn false c).runOn w' with ⟨result', after'⟩
  rw [ran, ran'] at same agree
  obtain rfl : result' = result := same
  rcases result' with e | _ <;> exact ⟨rfl, agree⟩

theorem call_changes (failOn : Option String) (c : SigningCall)
    (w : World (Unit × List SigningCall)) :
    w.tree.FilesChanged (fun l => w.tree.goal? c.out = some l)
      ((Issuance.call (.recording failOn false) c).runOn w).2.tree := by
  have changes := Signer.recording_changes failOn c w
  rw [Issuance.runOn_call]
  rcases called : (Signer.recording failOn false c).runOn w with ⟨e | _, between⟩ <;>
    rw [called] at changes <;> exact changes

theorem sameWays_of_call {c : SigningCall} {result : Except IssuanceError Unit}
    {after : World (Unit × List SigningCall)}
    (ran : (Issuance.call (.recording failOn false) c).runOn w = (result, after)) :
    w.tree.SameWays after.tree := by
  have changes := call_changes failOn c w
  rw [ran] at changes
  exact changes.sameWays

theorem sign_alike (failOn : Option String) (ca : AuthoritySettings) (leaf : LeafSettings)
    (subject : Subject) (w w' : World (Unit × List SigningCall))
    (agree : w.tree.AgreeOutside X w'.tree)
    (avoids : ∀ p ∈ files.made, ∀ l ∈ w.tree.route .write p, ¬X l) :
    AlikeRuns X ((sign (.recording failOn false) ca leaf subject files).runOn w)
      ((sign (.recording failOn false) ca leaf subject files).runOn w') := by
  rw [sign]
  apply AlikeRuns.bind (call_alike (c := .key ca.method none files.key) failOn agree
    (avoids files.key (by simp [BundleFiles.made])))
  intro _ keyed keyed' ran agree
  have first := sameWays_of_call ran
  apply AlikeRuns.bind (call_alike
    (c := .request files.key subject ca.requestConfig files.request) failOn agree
    (FileTree.route_of_sameWays first .write files.request ▸
      avoids files.request (by simp [BundleFiles.made])))
  intro _ requested requested' ran agree
  have both := first.trans (sameWays_of_call ran)
  exact call_alike (c := .sign files.request ca.files ca.keyPassphrase validityDays
    leaf.extensions files.chain) failOn agree
    (FileTree.route_of_sameWays both .write files.chain ▸
      avoids files.chain (by simp [BundleFiles.made]))

theorem sign_sameWays (failOn : Option String) (ca : AuthoritySettings) (leaf : LeafSettings)
    (subject : Subject) (files : BundleFiles) (w : World (Unit × List SigningCall)) :
    w.tree.SameWays ((sign (.recording failOn false) ca leaf subject files).runOn w).2.tree := by
  apply sign_keeps _ (.refl _)
  intro c between _ _ ways
  exact ways.trans (Signer.recording_changes failOn c between).sameWays

/-- Of two trees with the same directories, what a bundle comes to is the same in both, and so is
    what it leaves, if all that is looked up once it is prepared is the same in both. -/
theorem issue_alike (failOn : Option String) (plain : i.Plain)
    (paved : w.tree.Paved (w.tree.start i.dir) i.dir.steps)
    (ready : prepared ca.files leaf i w.tree = (.ok subject, u))
    (same : SameDirectories w.tree w'.tree) (agree : w.tree.AgreeOutside X w'.tree)
    (writes : ∀ p ∈ (BundleFiles.ofIdentity i).made, ∀ l ∈ u.route .write p,
      X l → l ∈ sites w.tree i)
    (reads : ∀ p ∈ [ca.files.cert, (BundleFiles.ofIdentity i).chain], ∀ l ∈ u.route .reach p,
      X l → l ∈ sites w.tree i) :
    AlikeRuns (fun l => X l ∧ l ∉ sites w.tree i)
      ((issue (.recording failOn false) ca leaf i).runOn w)
      ((issue (.recording failOn false) ca leaf i).runOn w') := by
  have tidied := tidied_of_prepared plain paved ready
  obtain ⟨u', ready', tidied'⟩ := prepared_tidied plain paved ready same
  have agree := tidied.agreeOutside agree tidied'
  rw [runOn_issue, runOn_issue, ready, ready']
  dsimp only
  obtain ⟨equal, agree⟩ := sign_alike failOn ca leaf subject ⟨u, w.memory⟩ ⟨u', w'.memory⟩ agree
    fun p hp l hl inside => inside.2 (writes p hp l hl inside.1)
  have ways := sign_sameWays failOn ca leaf subject (.ofIdentity i) ⟨u, w.memory⟩
  generalize (sign (.recording failOn false) ca leaf subject (.ofIdentity i)).runOn
    ⟨u, w.memory⟩ = r at equal agree ways ⊢
  generalize (sign (.recording failOn false) ca leaf subject (.ofIdentity i)).runOn
    ⟨u', w'.memory⟩ = r' at equal agree ⊢
  obtain ⟨result, signed⟩ := r
  obtain ⟨result', signed'⟩ := r'
  obtain rfl : result' = result := equal
  rcases result' with e | _
  · exact ⟨rfl, agree⟩
  dsimp only at agree ways ⊢
  have added : AlikeOutside (fun l => X l ∧ l ∉ sites w.tree i)
      (signed.tree.appendFile ca.files.cert (BundleFiles.ofIdentity i).chain)
      (signed'.tree.appendFile ca.files.cert (BundleFiles.ofIdentity i).chain) := by
    apply agree.appendFile
    intro p hp l hl inside
    rw [FileTree.route_of_sameWays ways] at hl
    exact inside.2 (reads p hp l hl inside.1)
  generalize signed.tree.appendFile ca.files.cert (BundleFiles.ofIdentity i).chain = r at added ⊢
  generalize signed'.tree.appendFile ca.files.cert (BundleFiles.ofIdentity i).chain = r' at added ⊢
  cases added with
  | ok agree => exact ⟨rfl, agree⟩
  | error e => exact ⟨rfl, agree⟩

theorem issue_changes_outputs (failOn : Option String) (ca : AuthoritySettings)
    (leaf : LeafSettings) (i : Identity) (w : World (Unit × List SigningCall)) :
    (prepared ca.files leaf i w.tree).2.FilesChanged
      (fun l => ∃ p ∈ (BundleFiles.ofIdentity i).made,
        (prepared ca.files leaf i w.tree).2.goal? p = some l)
      ((issue (.recording failOn false) ca leaf i).runOn w).2.tree := by
  rw [runOn_issue]
  rcases ready : prepared ca.files leaf i w.tree with ⟨e | subject, u⟩
  · exact .refl _ _
  dsimp only
  have changes : u.FilesChanged (fun l => ∃ p ∈ (BundleFiles.ofIdentity i).made, u.goal? p = some l)
      ((sign (.recording failOn false) ca leaf subject (.ofIdentity i)).runOn
        ⟨u, w.memory⟩).2.tree := by
    apply sign_keeps _ (.refl _ _)
    intro c between hc _ changes
    apply changes.trans
    apply (Signer.recording_changes failOn c between).mono
    intro l goal
    rw [FileTree.goal?_of_sameWays changes.sameWays] at goal
    exact ⟨c.out, hc, goal⟩
  rcases done : (sign (.recording failOn false) ca leaf subject (.ofIdentity i)).runOn
    ⟨u, w.memory⟩ with ⟨e | _, signed⟩ <;> rw [done] at changes
  · exact changes
  dsimp only at changes ⊢
  rcases added : signed.tree.appendFile ca.files.cert (BundleFiles.ofIdentity i).chain with e | last
  · exact changes
  apply changes.trans
  apply appendFile_filesChanged _ added
  intro l goal
  rw [FileTree.goal?_of_sameWays changes.sameWays] at goal
  exact ⟨_, by simp [BundleFiles.made], goal⟩

theorem issue_frame_of_routes (failOn : Option String) (tidied : Tidied ca.files leaf i w.tree u)
    (ready : prepared ca.files leaf i w.tree = (.ok subject, u))
    (routes : ∀ p ∈ (BundleFiles.ofIdentity i).made, ∀ l ∈ u.route .write p,
      w.tree.get? l = some .directory ∨ X l) {l : Location} (outside : l ∉ sites w.tree i)
    (unfound : ¬X l) :
    ((issue (.recording failOn false) ca leaf i).runOn w).2.tree.get? l = w.tree.get? l := by
  have changes := issue_changes_outputs failOn ca leaf i w
  rw [ready] at changes
  rw [← tidied.kept l outside]
  apply changes.frame
  rintro ⟨p, hp, goal⟩
  rcases routes p hp l (FileTree.mem_route_of_goal? goal) with directory | found
  · exact FileTree.get?_of_goal? goal ((tidied.sameDirectories.iff l).2 directory)
  · exact unfound found

theorem issue_leaves (failOn : Option String) (tidied : Tidied ca.files leaf i w.tree u)
    (ready : prepared ca.files leaf i w.tree = (.ok subject, u)) :
    SameDirectories w.tree ((issue (.recording failOn false) ca leaf i).runOn w).2.tree ∧
      ∀ l target, ((issue (.recording failOn false) ca leaf i).runOn w).2.tree.get? l =
          some (.link target) →
        w.tree.get? l = some (.link target) ∨
          l = w.tree.site (BundleFiles.ofIdentity i).link ∧ target = ⟨Path.linkTarget
            leaf.linkStyle w.tree.cwd i.dir ca.files.dir ca.files.certName⟩ := by
  have changes := issue_changes_outputs failOn ca leaf i w
  rw [ready] at changes
  refine ⟨tidied.sameDirectories.trans changes.sameWays.sameDirectories, fun l target linked => ?_⟩
  have before : u.get? l = some (.link target) := by
    have way := (changes.sameWays.way l).symm.trans (FileTree.way?_eq_some.2 ⟨linked, rfl⟩)
    exact (FileTree.way?_eq_some.1 way).1
  by_cases inside : l ∈ sites w.tree i
  · right
    by_cases same : l = w.tree.site (BundleFiles.ofIdentity i).link
    · rw [same, tidied.link] at before
      cases before
      exact ⟨same, rfl⟩
    · rw [tidied.gone l inside same] at before
      cases before
  · left
    rw [← tidied.kept l inside]
    exact before

end Recording

end Bundle

end NetworkCa
