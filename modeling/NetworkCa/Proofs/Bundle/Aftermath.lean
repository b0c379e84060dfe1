import NetworkCa.Proofs.Authority.Stages
import NetworkCa.Proofs.Bundle.Alike

namespace NetworkCa

open FileTree (EntriesRemoved FilesChanged KeepsWays)

variable {σ : Type} {s : Signer σ} {c : SigningCall} {cs : List SigningCall}
  {log : List (SigningCall × Bool)} {serial p : Path} {t t' u tidy : FileTree} {w after : World σ}

def Signer.logged (s : Signer σ) : Signer (σ × List (SigningCall × Bool)) := fun c world =>
  let (result, after) := s c ⟨world.tree, world.memory.1⟩
  (result, ⟨after.tree, (after.memory, world.memory.2 ++ [(c, result.toBool)])⟩)

namespace Bundle

variable {ca : AuthoritySettings} {leaf : LeafSettings} {i : Identity} {subject : Subject}
  {files : BundleFiles} {paths : List Path} {e : IssuanceError}
  {result : Except IssuanceError Unit}

def calls (ca : AuthoritySettings) (leaf : LeafSettings) (subject : Subject)
    (files : BundleFiles) : List SigningCall :=
  [.key ca.method none files.key, .request files.key subject ca.requestConfig files.request,
    .sign files.request ca.files ca.keyPassphrase validityDays leaf.extensions files.chain]

theorem runOn_forM_cons (s : Signer σ) (c : SigningCall) (cs : List SigningCall) (w : World σ) :
    ((c :: cs).forM (Issuance.call s)).runOn w =
      match (s c).runOn w with
      | (.ok (), after) => (cs.forM (Issuance.call s)).runOn after
      | (.error e, after) => (.error (.signing e), after) := by
  change Work.runOn (Issuance.call s c >>= fun _ => cs.forM (Issuance.call s)) w = _
  rw [Work.runOn_bind, Issuance.runOn_call]
  rcases (s c).runOn w with ⟨_ | _, _⟩ <;> rfl

theorem runOn_sign (s : Signer σ) (ca : AuthoritySettings) (leaf : LeafSettings)
    (subject : Subject) (files : BundleFiles) (w : World σ) :
    (sign s ca leaf subject files).runOn w =
      ((calls ca leaf subject files).forM (Issuance.call s)).runOn w := by
  rw [sign, calls, runOn_forM_cons, Work.runOn_bind, Issuance.runOn_call]
  rcases (s (.key ca.method none files.key)).runOn w with ⟨e | _, keyed⟩
  · rfl
  dsimp only
  rw [runOn_forM_cons, Work.runOn_bind, Issuance.runOn_call]
  rcases (s (.request files.key subject ca.requestConfig files.request)).runOn keyed with
    ⟨e | _, requested⟩
  · rfl
  dsimp only
  rw [runOn_forM_cons, Issuance.runOn_call]
  rcases (s _).runOn requested with ⟨e | _, signed⟩ <;> rfl

/-- Where files may have changed after some calls: at the outputs of those that were done, and where
    the serial number is. -/
def Done (serial : Path) (log : List (SigningCall × Bool)) (t : FileTree) (l : Location) : Prop :=
  (∃ c, (c, true) ∈ log ∧ t.vacancy? c.out = some l) ∨ t.goal? serial = some l

theorem Done.append (more : List (SigningCall × Bool)) {l : Location} (h : Done serial log t l) :
    Done serial (log ++ more) t l :=
  h.imp_left fun ⟨c, member, vacant⟩ => ⟨c, List.mem_append_left more member, vacant⟩

theorem changes_of_logged (signer : s.AllOrNothing serial) (counts : c.CountsAt serial)
    (changes : u.FilesChanged (Done serial log u) w.tree) :
    u.FilesChanged (Done serial (log ++ [(c, ((s c).runOn w).1.toBool)]) u)
      ((s c).runOn w).2.tree := by
  have same := FileTree.goal?_of_sameWays changes.sameWays serial
  rcases called : (s c).runOn w with ⟨e | _, after⟩
  · have more := (signer c counts).fails w e after called
    rw [same] at more
    exact (changes.mono fun l => .append _).trans (more.mono fun l => .inr)
  · have more := (signer c counts).changes w
    rw [called] at more
    apply (changes.mono fun l => .append _).trans
    apply more.mono
    rintro l (vacant | goal)
    · rcases changes.vacancy?_before vacant with before | done
      · exact .inl ⟨c, by simp [Except.toBool], before⟩
      · exact done.append _
    · exact .inr (same ▸ goal)

theorem runOn_logged (signer : s.AllOrNothing serial) (counts : ∀ c ∈ cs, c.CountsAt serial)
    (changes : u.FilesChanged (Done serial log u) w.tree)
    (ran : (cs.forM (Issuance.call s)).runOn w = (result, after)) :
    ∃ more, (cs.forM (Issuance.call s.logged)).runOn ⟨w.tree, (w.memory, log)⟩ =
        (result, ⟨after.tree, (after.memory, log ++ more)⟩) ∧
      more.map Prod.fst <+: cs ∧ u.FilesChanged (Done serial (log ++ more) u) after.tree ∧
      (result = .ok () ∨ ∃ e, result = .error (.signing e)) := by
  induction cs generalizing w log with
  | nil =>
    cases ran
    exact ⟨[], by simp, by simp, by simpa using changes, .inl rfl⟩
  | cons c cs ih =>
    have next := changes_of_logged signer (counts c (by simp)) changes
    have step : (s.logged c).runOn ⟨w.tree, (w.memory, log)⟩ =
        (((s c).runOn w).1, ⟨((s c).runOn w).2.tree,
          (((s c).runOn w).2.memory, log ++ [(c, ((s c).runOn w).1.toBool)])⟩) := rfl
    rw [runOn_forM_cons] at ran
    rw [runOn_forM_cons, step]
    rcases called : (s c).runOn w with ⟨e | _, between⟩ <;> rw [called] at ran next
    · cases ran
      exact ⟨[(c, false)], rfl, by simp, next, .inr ⟨e, rfl⟩⟩
    · obtain ⟨more, ran', front, changes', ending⟩ :=
        ih (fun d hd => counts d (List.mem_cons_of_mem c hd)) next ran
      refine ⟨(c, true) :: more, ?_, by simpa using front, ?_, ending⟩
      · simpa [Except.toBool] using ran'
      · simpa [Except.toBool] using changes'

/-- Clearing has stopped at `p`, which is still there: what comes before it is gone, and nothing
    else is different. -/
def StoppedAt (p : Path) (paths : List Path) (t t' : FileTree) : Prop :=
  ∃ earlier later, paths = earlier ++ p :: later ∧ (∀ q ∈ earlier, t'.Absent q) ∧ ¬t'.Absent p ∧
    t.EntriesRemoved (fun l => ∃ q ∈ earlier, t.named? q = some l) t'

theorem removeStale_error (h : t.removeStale p = .error e) :
    (∃ failure, e = .cleanup p failure) ∧ ¬t.Absent p := by
  constructor
  · rw [FileTree.removeStale] at h
    split at h <;> cases h
    exact ⟨_, rfl⟩
  · intro absent
    rw [FileTree.Absent] at absent
    rw [FileTree.removeStale, FileTree.clearing, absent] at h
    cases h

theorem cleared_error (h : cleared paths t = (.error e, t')) :
    ∃ p failure, e = .cleanup p failure ∧ StoppedAt p paths t t' := by
  induction paths generalizing t with
  | nil => cases h
  | cons p rest ih =>
    rw [cleared] at h
    rcases first : t.removeStale p with e' | ⟨removed, between⟩ <;> simp only [first] at h
    · cases h
      obtain ⟨⟨failure, blame⟩, present⟩ := removeStale_error first
      exact ⟨p, failure, blame, [], rest, rfl, by simp, present, .refl _ _⟩
    · obtain ⟨q, failure, blame, earlier, later, rfl, absent, present, removal⟩ := ih h
      have gone := (FileTree.absent_of_removeStale first).of_removed removal
      have before := removeStale_removes first
      refine ⟨q, failure, blame, p :: earlier, later, rfl, ?_, present, ?_⟩
      · exact List.forall_mem_cons.2 ⟨gone, absent⟩
      · apply (before.mono fun l named => ⟨p, List.mem_cons_self, named⟩).trans
        apply removal.mono
        rintro l ⟨r, hr, named⟩
        exact ⟨r, List.mem_cons_of_mem p hr, before.named?_before named⟩

theorem of_prepared_error {authority : AuthorityFiles}
    (h : prepared authority leaf i t = (.error e, u)) :
    (((∃ dir, e = .missingDirectory dir) ∨ ∃ fault, e = .subject fault) ∧ u = t) ∨
    (∃ p failure, e = .cleanup p failure ∧ StoppedAt p (BundleFiles.ofIdentity i).stale t u) ∨
    (∃ subject failure, e = .io (BundleFiles.ofIdentity i).link failure ∧
      Subject.forIdentity leaf.subject i = .ok subject ∧
      cleared (BundleFiles.ofIdentity i).stale t = (.ok (), u)) := by
  unfold prepared at h
  dsimp only at h
  split at h
  · cases h
    exact .inl ⟨.inl ⟨_, rfl⟩, rfl⟩
  split at h
  · cases h
    exact .inl ⟨.inr ⟨_, rfl⟩, rfl⟩
  next subject named =>
  split at h
  · next stopped =>
    cases h
    exact .inr (.inl (cleared_error stopped))
  · next tidy tidied =>
    split at h <;> cases h
    exact .inr (.inr ⟨subject, _, rfl, named, tidied⟩)

/-- What is left of a bundle that failed after everything stale had been cleared: at its paths there
    is nothing from before, and no file but those of the calls that were done. -/
structure Leftover (calls : List SigningCall) (log : List (SigningCall × Bool))
    (files : BundleFiles) (before tidy after : FileTree) : Prop where
  removed : before.EntriesRemoved (fun l => ∃ p ∈ files.stale, before.named? p = some l) tidy
  gone : ∀ p ∈ files.stale, tidy.Absent p
  fresh : ∀ p ∈ files.stale, ∀ l found slash,
    after.lookup .inspect p = .ok (.taken l found slash) → tidy.get? l = none
  made : ∀ c ∈ calls, ∀ mode content,
    after.entryAt c.out = .ok (.file mode content) → (c, true) ∈ log

def Failed (s : Signer σ) (ca : AuthoritySettings) (leaf : LeafSettings) (i : Identity)
    (w : World σ) (e : IssuanceError) (after : World σ) : Prop :=
  ∃ log, (issue s.logged ca leaf i).runOn ⟨w.tree, (w.memory, [])⟩ =
      (.error e, ⟨after.tree, (after.memory, log)⟩) ∧
    match e with
    | .missingDirectory _ | .subject _ => after = w ∧ log = []
    | .cleanup p _ =>
      StoppedAt p (BundleFiles.ofIdentity i).stale w.tree after.tree ∧
        after.memory = w.memory ∧ log = []
    | _ => ∃ subject tidy, Subject.forIdentity leaf.subject i = .ok subject ∧
      Leftover (calls ca leaf subject (.ofIdentity i)) log (.ofIdentity i) w.tree tidy after.tree

/-- Where a link could be made in a directory that had been cleared, there was room for every file
    of the bundle. -/
theorem room_of_cleared (plain : i.Plain)
    (absent : ∀ p ∈ (BundleFiles.ofIdentity i).stale, tidy.Absent p) {place : Location}
    (vacant : tidy.vacancy? (BundleFiles.ofIdentity i).link = some place) :
    ∃ directory, place = directory ++ [i.caLink] ∧
      ∀ n ∈ staleNames i, tidy.vacancy? (i.dir.file n) = some (directory ++ [n]) := by
  have room (n : String) (hn : n ∈ staleNames i) : ∃ directory, place = directory ++ [i.caLink] ∧
      tidy.vacancy? (i.dir.file n) = some (directory ++ [n]) := by
    have named := plainName_of_mem_staleNames plain n hn
    have link := plain.caLink
    apply (absent _ (stale_eq i ▸ List.mem_map_of_mem hn)).vacancy? vacant
      (Path.steps_file i.dir link.ne_empty link.no_slash)
      (by simp [link.ne_current, link.ne_parent])
      (Path.steps_file i.dir named.ne_empty named.no_slash)
      (by simp [named.ne_current, named.ne_parent]) _
      (Path.endsInSlash_file i.dir named.ne_empty named.no_slash)
    rw [FileTree.start_file tidy i.dir named.no_slash]
    exact (FileTree.start_file tidy i.dir link.no_slash).symm
  obtain ⟨directory, rfl, _⟩ := room i.caLink (by simp [staleNames])
  refine ⟨directory, rfl, fun n hn => ?_⟩
  obtain ⟨directory', same, vacant'⟩ := room n hn
  obtain ⟨rfl, _⟩ := List.append_inj' same rfl
  exact vacant'

theorem names_of_calls {c c' : SigningCall} (hc : c ∈ calls ca leaf subject (.ofIdentity i))
    (hc' : c' ∈ calls ca leaf subject (.ofIdentity i)) :
    ∃ n ∈ staleNames i, ∃ n' ∈ staleNames i, c.out = i.dir.file n ∧ c'.out = i.dir.file n' ∧
      (n = n' → c = c') := by
  simp only [calls, List.mem_cons, List.not_mem_nil, or_false] at hc hc'
  rcases hc with rfl | rfl | rfl <;> rcases hc' with rfl | rfl | rfl <;>
    refine ⟨_, ?_, _, ?_, rfl, rfl, ?_⟩ <;> simp [staleNames]

theorem leftover_of_cleared (tidied : cleared (BundleFiles.ofIdentity i).stale t = (.ok (), tidy)) :
    Leftover (calls ca leaf subject (.ofIdentity i)) log (.ofIdentity i) t tidy tidy := by
  have removed := cleared_removes (BundleFiles.ofIdentity i).stale t
  rw [tidied] at removed
  have gone := absent_of_cleared tidied
  refine ⟨removed, gone, fun p hp l found slash looked => ?_, fun c hc mode content there => ?_⟩
  · have absent := FileTree.absent_iff.1 (gone p hp)
    rw [absent] at looked
    cases looked
  · obtain ⟨n, hn, _, _, out, _⟩ := names_of_calls hc hc
    have absent := gone (i.dir.file n) (stale_eq i ▸ List.mem_map_of_mem hn)
    rw [out, absent] at there
    cases there

theorem new_of_makeLink {within : Location → Prop} {target : Path} {l : Location} {mode : FileMode}
    {content : Bytes} (linked : tidy.makeLink target p = .ok u)
    (changes : u.FilesChanged within t') (free : tidy.get? l = none)
    (file : t'.get? l = some (.file mode content)) : u.get? l = none ∧ within l := by
  obtain ⟨place, vacant, made⟩ := FileTree.of_makeLink_ok linked
  have before : u.get? l = none := by
    by_cases link : l = place
    · have way : u.way? l = some (.link target) := by
        rw [FileTree.way?_eq_some, made, link]
        exact ⟨FileTree.get?_put_of_unway (FileTree.way?_eq_none.2 (.inl (link ▸ free))), rfl⟩
      have still := (FileTree.way?_eq_some.1 ((changes.sameWays.way l).trans way)).1
      cases still.symm.trans file
    · rw [made, FileTree.get?_put_of_ne link, free]
  refine ⟨before, (changes.only l ?_).1⟩
  rw [before, file]
  simp

/-- Whatever calls there were, the files at a bundle's paths are new ones, and those of the calls
    that were done. -/
theorem leftover_of_changes (plain : i.Plain)
    (tidied : cleared (BundleFiles.ofIdentity i).stale t = (.ok (), tidy)) {target : Path}
    (linked : tidy.makeLink target (BundleFiles.ofIdentity i).link = .ok u)
    (aside : ∀ p ∈ (BundleFiles.ofIdentity i).made, ∀ l, u.goal? serial = some l →
      u.vacancy? p ≠ some l)
    (logged : ∀ c, (c, true) ∈ log → c ∈ calls ca leaf subject (.ofIdentity i))
    (changes : u.FilesChanged (Done serial log u) t') :
    Leftover (calls ca leaf subject (.ofIdentity i)) log (.ofIdentity i) t tidy t' := by
  have removed := cleared_removes (BundleFiles.ofIdentity i).stale t
  rw [tidied] at removed
  have gone := absent_of_cleared tidied
  obtain ⟨place, vacant, made⟩ := FileTree.of_makeLink_ok linked
  obtain ⟨directory, same, room⟩ := room_of_cleared plain gone vacant
  have keeps : KeepsWays tidy u := made ▸ FileTree.keepsWays_put_free (FileTree.get?_of_vacancy? vacant)
  have later : KeepsWays tidy t' := keeps.trans changes.sameWays.keeps
  have found {v : FileTree} (keeps : KeepsWays tidy v) {n : String} (hn : n ∈ staleNames i)
      (purpose : FileTree.Purpose) (unfollowed : purpose.follows false = false) :
      v.lookup purpose (i.dir.file n) =
        FileTree.arrive purpose (directory ++ [n]) false (v.get? (directory ++ [n])) :=
    FileTree.lookup_of_vacancy? keeps (room n hn) purpose (by simp [unfollowed])
  refine ⟨removed, gone, fun p hp l e slash looked => ?_, fun c hc mode content there => ?_⟩
  · obtain ⟨n, hn, rfl⟩ := List.mem_map.1 (stale_eq i ▸ hp)
    rw [found later hn .inspect rfl] at looked
    obtain ⟨rfl, _⟩ := FileTree.arrive_ok looked
    exact FileTree.get?_of_vacancy? (room n hn)
  obtain ⟨l, slash, looked⟩ := FileTree.entryAt_eq_ok.1 there
  have standing {n : String} (hn : n ∈ staleNames i) (out : c.out = i.dir.file n) :
      l = directory ++ [n] := by
    rw [out, found later hn .inspect rfl] at looked
    exact (FileTree.arrive_ok looked).1
  have file := FileTree.get?_of_lookup_taken looked (by simp)
  obtain ⟨n, hn, _, _, out, _⟩ := names_of_calls hc hc
  have free : tidy.get? l = none := standing hn out ▸ FileTree.get?_of_vacancy? (room n hn)
  obtain ⟨before, changed⟩ := new_of_makeLink linked changes free file
  rcases changed with ⟨c', member, vacant'⟩ | goal
  · obtain ⟨n, hn, n', hn', out, out', same⟩ := names_of_calls hc (logged c' member)
    rw [out', FileTree.vacancy?_eq_some, found keeps hn' .occupy rfl] at vacant'
    have place' : l = directory ++ [n'] := (FileTree.arrive_ok vacant').1
    obtain rfl : n = n' := by simpa [standing hn out] using place'
    rwa [same rfl]
  · have room' : u.vacancy? c.out = some l := by
      rw [FileTree.vacancy?_eq_some, out, found keeps hn .occupy rfl, ← standing hn out, before]
      rfl
    have own : c.out ∈ (BundleFiles.ofIdentity i).made := by
      simp only [calls, List.mem_cons, List.not_mem_nil, or_false] at hc
      rcases hc with rfl | rfl | rfl <;> simp [SigningCall.out, BundleFiles.made]
    exact absurd room' (aside _ own l goal)

theorem aside_of_unlinked (plain : i.Plain) (filename : '/' ∉ ca.filename.toList)
    (unlinked : ∀ target, u.entryAt ca.files.serial ≠ .ok (.link target)) :
    ∀ p ∈ (BundleFiles.ofIdentity i).made, ∀ l, u.goal? ca.files.serial = some l →
      u.vacancy? p ≠ some l := by
  have named : PlainName (ca.filename ++ ".srl") :=
    plainName_append filename ⟨by decide, by decide, by decide, by decide⟩ (by decide)
  intro p hp l goal vacant
  obtain ⟨ending, he, rfl⟩ : ∃ ending ∈ [".key", ".csr", ".crt"],
      p = i.dir.file (i.name ++ ending) := by
    simpa [BundleFiles.made, BundleFiles.ofIdentity] using hp
  have own : PlainName (i.name ++ ending) := by
    apply plainName_of_mem_staleNames plain
    simp only [List.mem_cons, List.not_mem_nil, or_false] at he
    rcases he with rfl | rfl | rfl <;> simp [staleNames]
  obtain ⟨home, rfl⟩ := FileTree.place_of_goal?
    (Path.steps_file ca.dir named.ne_empty named.no_slash)
    (by simp [named.ne_current, named.ne_parent])
    (Path.endsInSlash_file ca.dir named.ne_empty named.no_slash) unlinked goal
  obtain ⟨directory, _, same, _⟩ := FileTree.place_of_vacancy?
    (Path.steps_file i.dir own.ne_empty own.no_slash)
    (by simp [own.ne_current, own.ne_parent]) vacant
  obtain ⟨_, names⟩ := List.append_inj' same rfl
  -- The two names have endings of four characters, which differ.
  have chars := congrArg (fun s : String => (s.toList.reverse).take 4) (List.singleton_inj.1 names)
  simp only [List.mem_cons, List.not_mem_nil, or_false] at he
  rcases he with rfl | rfl | rfl <;> simp at chars

theorem appendFile_error {source goal : Path} (h : t.appendFile source goal = .error e) :
    ∃ q failure, e = .io q failure := by
  unfold FileTree.appendFile at h
  split at h
  · cases h
    exact ⟨_, _, rfl⟩
  · split at h <;> cases h
    exact ⟨_, _, rfl⟩

def Sample.reluctant : Signer Unit := fun c => do
  Work.change (.io authority.files.serial) (·.write authority.files.serial [4])
  match c with
  | .sign .. => throw (.io c.out .exists)
  | _ => Work.change (.io c.out) (·.create c.out .plain [3])

theorem reluctant_allOrNothing :
    Sample.reluctant.AllOrNothing Sample.authority.files.serial := by
  intro c _
  refine Work.Outputs.allOrNothing (.after (.write _ _) fun _ => ?_)
  cases c with
  | sign => exact .throw _
  | _ => exact .create _ _ _

def Sample.worn : FileTree :=
  (tree.put ["client", "client.key"] (.file .plain [5])).put ["client", "client.crt"]
    (.file .plain [6])

def Sample.entangled : FileTree := tree.put ["CA", "ca.pem"] (.link ⟨"client.crt"⟩)

end Bundle

end NetworkCa
