import NetworkCa.Proofs.Authority.Founding
import NetworkCa.Proofs.Bundle.Homeward

namespace NetworkCa

open NetworkCa.Bundle (Rooted)
open FileTree (AgreeOutside NoNewLinks SameDirectories)

variable {t t' : FileTree} {X : Location → Prop} {failOn : Option String}
  {w w' after : World (Unit × List SigningCall)}

theorem FileTree.ensureDirectory_of_paved {p : Path} {ready : FileTree}
    (h : t.ensureDirectory p = .ok ready) (paved : t'.Paved (t'.start p) p.steps) :
    t'.ensureDirectory p = .ok t' := by
  rcases FileTree.lookup_cases p with ⟨failure, refused⟩ | walked
  · rw [FileTree.ensureDirectory, FileTree.entryAt, refused, FileTree.makeDirectory, refused] at h
    cases h
  · rw [FileTree.ensureDirectory, FileTree.entryAt, walked,
      FileTree.walk_paved_end paved (by simp)]
    rfl

namespace Authority

variable {settings : AuthoritySettings} {subject : Subject} {files : AuthorityFiles}

def stale (settings : AuthoritySettings) : List Path :=
  [settings.files.key, settings.files.cert, settings.files.serial]

theorem straight_of_mem_stale (plain : '/' ∉ settings.filename.toList)
    (paved : t.Paved (t.start settings.dir) settings.dir.steps) :
    ∀ p ∈ stale settings, t.Straight p := by
  have file (ending : String) (named : PlainName ending) (long : 3 ≤ ending.toList.length) :
      t.Straight (settings.dir.file (settings.filename ++ ending)) :=
    FileTree.straight_file paved (plainName_append plain named long)
  simp only [stale, List.forall_mem_cons]
  exact ⟨file ".key" ⟨by decide, by decide, by decide, by decide⟩ (by decide),
    file ".pem" ⟨by decide, by decide, by decide, by decide⟩ (by decide),
    file ".srl" ⟨by decide, by decide, by decide, by decide⟩ (by decide), by simp⟩

theorem bootstrap_stages (ran : (bootstrap (.recording failOn false) settings).runOn w =
    (.ok files, after)) :
    files = settings.files ∧ ∃ subject ready u, Subject.parse settings.subject = .ok subject ∧
      w.tree.ensureDirectory settings.dir = .ok ready ∧
      Bundle.cleared (stale settings) ready = (.ok (), u) ∧
      (found (.recording failOn false) settings subject).runOn ⟨u, w.memory⟩ = (.ok (), after) := by
  obtain ⟨same, subject, u, cleaned, done⟩ := of_bootstrap_ok ran
  obtain ⟨parsed, ready, ensured, cleared⟩ := of_cleaned_ok cleaned
  exact ⟨same, subject, ready, u, parsed, ensured, cleared, done⟩

theorem found_alike (failOn : Option String) (settings : AuthoritySettings) (subject : Subject)
    (w w' : World (Unit × List SigningCall)) (agree : w.tree.AgreeOutside X w'.tree)
    (avoids : ∀ p ∈ stale settings, ∀ l ∈ w.tree.route .write p, ¬X l) :
    AlikeRuns X ((found (.recording failOn false) settings subject).runOn w)
      ((found (.recording failOn false) settings subject).runOn w') := by
  rw [found]
  apply AlikeRuns.bind
    (Bundle.call_alike failOn agree (avoids _ (by simp [stale, SigningCall.out])))
  intro _ keyed keyed' ran agree
  refine Bundle.call_alike failOn agree ?_
  rw [FileTree.route_of_sameWays (Bundle.sameWays_of_call ran)]
  exact avoids _ (by simp [stale, SigningCall.out])

theorem found_changes (failOn : Option String) (settings : AuthoritySettings) (subject : Subject)
    (w : World (Unit × List SigningCall)) :
    w.tree.FilesChanged (fun l => ∃ p ∈ stale settings, w.tree.goal? p = some l)
      ((found (.recording failOn false) settings subject).runOn w).2.tree := by
  have goal {c : SigningCall} (hc : c.out ∈ stale settings) (l : Location)
      (h : w.tree.goal? c.out = some l) : ∃ p ∈ stale settings, w.tree.goal? p = some l :=
    ⟨c.out, hc, h⟩
  have first := (Bundle.call_changes failOn
    (.key settings.method settings.keyPassphrase settings.files.key) w).mono
      (goal (by simp [stale, SigningCall.out]))
  rw [found, Work.runOn_bind]
  rcases keying : (Issuance.call (.recording failOn false)
    (.key settings.method settings.keyPassphrase settings.files.key)).runOn w with
      ⟨e | _, keyed⟩ <;> rw [keying] at first
  · exact first
  · apply first.trans
    apply (Bundle.call_changes failOn _ keyed).mono
    intro l h
    rw [FileTree.goal?_of_sameWays first.sameWays] at h
    exact goal (by simp [stale, SigningCall.out]) l h

theorem bootstrap_directories (ran : (bootstrap (.recording failOn false) settings).runOn w =
    (.ok files, after)) {l : Location} (h : w.tree.get? l = some .directory) :
    after.tree.get? l = some .directory := by
  obtain ⟨-, subject, ready, u, -, ensured, cleared, done⟩ := bootstrap_stages ran
  have tidied := Bundle.cleared_sameDirectories (stale settings) ready
  have changes := found_changes failOn settings subject ⟨u, w.memory⟩
  rw [cleared] at tidied
  rw [done] at changes
  apply ((tidied.trans changes.sameWays.sameDirectories).iff l).2
  rcases FileTree.ensureDirectory_cases ensured with rfl | ⟨place, free, rfl⟩
  · exact h
  · rw [FileTree.get?_put_of_ne, h]
    rintro rfl
    cases free.symm.trans h

theorem bootstrap_rooted (filename : '/' ∉ settings.filename.toList)
    (seated : w.tree.Seated w.tree.cwd)
    (unlinked : w.tree.Unlinked (w.tree.start settings.dir) settings.dir.steps)
    (ran : (bootstrap (.recording failOn false) settings).runOn w = (.ok files, after)) :
    Rooted settings after.tree ∧ NoNewLinks w.tree after.tree ∧ after.tree.cwd = w.tree.cwd := by
  have named : PlainName (settings.filename ++ ".pem") :=
    plainName_append filename ⟨by decide, by decide, by decide, by decide⟩ (by decide)
  have steps : settings.files.cert.steps.dropLast = settings.dir.steps := by
    rw [AuthoritySettings.files, AuthorityFiles.ofName,
      Path.steps_file _ named.ne_empty named.no_slash, List.dropLast_concat]
  have start : w.tree.start settings.files.cert = w.tree.start settings.dir :=
    FileTree.start_file w.tree settings.dir named.no_slash
  obtain ⟨⟨straight, cert⟩, links, cwd⟩ := bootstrap_grounded (start ▸ steps ▸ unlinked) ran
  have paved := FileTree.paved_of_straight_file straight named
  have home : after.tree.Seated after.tree.cwd := by
    rw [cwd]
    exact ⟨seated.names, fun k => bootstrap_directories ran (seated.directories k)⟩
  refine ⟨⟨filename, fun s hs => (home.names s hs).1, paved, ?_, cert⟩, links, cwd⟩
  refine FileTree.Seated.onward ?_ paved fun s hs =>
    Path.no_slash_of_mem_segments (List.mem_filter.1 hs).1
  rw [FileTree.start]
  split
  · exact FileTree.seated_root _
  · exact home

theorem route_of_stale (plain : '/' ∉ settings.filename.toList)
    (paved : t.Paved (t.start settings.dir) settings.dir.steps)
    (gone : ∀ l ∈ (stale settings).map t.site, t.get? l = none) {p : Path}
    (hp : p ∈ stale settings) {l : Location} (hl : l ∈ t.route .write p) :
    t.get? l = some .directory ∨ l ∈ (stale settings).map t.site := by
  have inside : t.site p ∈ (stale settings).map t.site := List.mem_map_of_mem hp
  rcases (straight_of_mem_stale plain paved p hp).route (fun target => by
    rw [gone _ inside]
    simp) hl with directory | rfl
  · exact .inl directory
  · exact .inr inside

theorem found_agreeOutside (failOn : Option String) (subject : Subject)
    (w : World (Unit × List SigningCall)) (plain : '/' ∉ settings.filename.toList)
    (paved : w.tree.Paved (w.tree.start settings.dir) settings.dir.steps)
    (gone : ∀ l ∈ (stale settings).map w.tree.site, w.tree.get? l = none) :
    w.tree.AgreeOutside (· ∈ (stale settings).map w.tree.site)
      ((found (.recording failOn false) settings subject).runOn w).2.tree := by
  have changes := found_changes failOn settings subject w
  refine ⟨changes.cwd, fun l outside => changes.frame ?_⟩
  rintro ⟨p, hp, goal⟩
  rcases route_of_stale plain paved gone hp (FileTree.mem_route_of_goal? goal) with
    directory | inside
  · exact FileTree.get?_of_goal? goal directory
  · exact outside inside

/-- An authority can be made anew in every tree with the same directories, and it is the same. -/
theorem bootstrap_again (w' : World (Unit × List SigningCall))
    (plain : '/' ∉ settings.filename.toList)
    (paved : after.tree.Paved (after.tree.start settings.dir) settings.dir.steps)
    (ran : (bootstrap (.recording failOn false) settings).runOn w = (.ok files, after))
    (same : SameDirectories after.tree w'.tree) (agree : after.tree.AgreeOutside X w'.tree) :
    ∃ again, (bootstrap (.recording failOn false) settings).runOn w' = (.ok files, again) ∧
      SameDirectories after.tree again.tree ∧
      after.tree.AgreeOutside (fun l => X l ∧ l ∉ (stale settings).map after.tree.site)
        again.tree := by
  obtain ⟨rfl, subject, ready, u, parsed, ensured, cleared, done⟩ := bootstrap_stages ran
  have tidied := Bundle.cleared_sameDirectories (stale settings) ready
  have changes := found_changes failOn settings subject ⟨u, w.memory⟩
  rw [cleared] at tidied
  rw [done] at changes
  have onward := changes.sameWays.sameDirectories
  have home : u.Paved (u.start settings.dir) settings.dir.steps := by
    rw [← FileTree.start_congr onward.cwd]
    exact paved.congr onward.symm
  have sites : (stale settings).map ready.site = (stale settings).map u.site :=
    List.map_congr_left fun p _ => (FileTree.site_congr tidied.cwd).symm
  have sites' : (stale settings).map after.tree.site = (stale settings).map u.site :=
    List.map_congr_left fun p _ => FileTree.site_congr onward.cwd
  obtain ⟨-, again⟩ := Bundle.cleared_straight
    (fun p hp => (straight_of_mem_stale plain home p hp).congr tidied.symm) cleared
  rw [sites] at again
  rw [sites']
  -- Before the signer's work both trees have nothing at the authority's files.
  obtain ⟨_, cleared₁, wiped⟩ := again ready (.refl _)
  cases cleared.symm.trans cleared₁
  obtain ⟨u', cleared', wiped'⟩ := again w'.tree ((tidied.trans onward).trans same)
  have ensured' : w'.tree.ensureDirectory settings.dir = .ok w'.tree := by
    apply FileTree.ensureDirectory_of_paved ensured
    rw [FileTree.start_congr same.cwd]
    exact paved.congr same
  have made := found_agreeOutside failOn subject ⟨u, w.memory⟩ plain home wiped.gone
  rw [done] at made
  have all : u.AgreeOutside (fun l => X l ∨ l ∈ (stale settings).map u.site) w'.tree :=
    (made.mono fun _ => .inr).trans (agree.mono fun _ => .inl)
  have between := Bundle.cleared_sameDirectories (stale settings) w'.tree
  rw [cleared'] at between
  have rest := (all.wiped ⟨rfl, wiped.gone, fun _ _ => rfl⟩ wiped').sharpen
    (onward.trans (same.trans between))
  obtain ⟨equal, alike⟩ := found_alike failOn settings subject ⟨u, w.memory⟩ ⟨u', w'.memory⟩ rest
    fun p hp l hl outside => by
      rcases route_of_stale plain home wiped.gone hp hl with directory | inside
      · exact outside.2 directory
      · exact outside.1.2 inside
  have changes' := found_changes failOn settings subject ⟨u', w'.memory⟩
  rcases done' : (found (.recording failOn false) settings subject).runOn ⟨u', w'.memory⟩ with
    ⟨result, again⟩
  rw [done, done'] at equal alike
  rw [done'] at changes'
  obtain rfl : result = .ok () := equal
  refine ⟨again, bootstrap_ok (cleaned_ok parsed ensured' cleared') done',
    same.trans (between.trans changes'.sameWays.sameDirectories), alike.mono ?_⟩
  rintro l ⟨⟨changed, outside⟩, _⟩
  exact ⟨changed.resolve_right outside, outside⟩

end Authority

end NetworkCa
