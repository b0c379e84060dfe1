import NetworkCa.Proofs.FileTree.Straight
import NetworkCa.Proofs.Signing.Backends
import NetworkCa.Proofs.Signing.Readiness

namespace NetworkCa

namespace FileTree

variable {t t' : FileTree} {within : Location → Prop} {purpose : Purpose} {p : Path}

theorem lookup_directory_of_keepsWays (keeps : KeepsWays t t') {place : Location} {slash : Bool}
    (h : t.lookup purpose p = .ok (.taken place .directory slash)) :
    t'.lookup purpose p = .ok (.taken place .directory slash) := by
  have walk := h
  rw [walk_of_lookup_ok h] at walk
  rw [← h]
  apply lookup_congr keeps.cwd
  intro l hl
  rcases route_of_walk_ok walk l hl with ⟨e, way⟩ | ⟨_, entry⟩
  · exact keeps.get? way
  · exact keeps.get? (way?_eq_directory.2 entry)

/-- Directories and links stand through all changes of files, and so do the files that these do not
    touch. -/
theorem FilesChanged.keeps_entryAt (changes : FilesChanged within t t') {e : Entry}
    (h : t.entryAt p = .ok e) (outside : e.isFile = true → ∀ l, t.goal? p = some l → ¬within l) :
    t'.entryAt p = .ok e := by
  by_cases directory : e = .directory
  · subst directory
    obtain ⟨place, slash, looked⟩ := entryAt_eq_ok.1 h
    exact entryAt_eq_ok.2
      ⟨place, slash, lookup_directory_of_keepsWays changes.sameWays.keeps looked⟩
  · exact changes.entryAt h directory outside

theorem vacancy?_of_entryAt {e : Entry} (h : t.entryAt p = .ok e) : t.vacancy? p = none := by
  rw [Option.eq_none_iff_forall_ne_some]
  intro place vacant
  have keeps : KeepsWays t t := ⟨rfl, fun _ _ way => way⟩
  rw [entryAt, lookup_of_vacancy? keeps vacant .inspect (by simp [Purpose.follows]),
    get?_of_vacancy? vacant] at h
  cases h

theorem read_of_goal? {q : Path} {place : Location} {mode : FileMode} {content : Bytes}
    (entry : t.entryAt p = .ok (.file mode content)) (goal : t.goal? p = some place)
    (same : t.goal? q = some place) : t.read q = .ok content := by
  obtain ⟨there, slash, looked⟩ := entryAt_eq_ok.1 entry
  have reached := goal?_of_file (lookup_reach_of_file looked)
  rw [goal] at reached
  cases reached
  exact read_eq_ok.2
    ⟨place, mode, false, lookup_reach_of_goal? same (get?_of_lookup_taken looked (by simp))⟩

end FileTree

/-- A call that does not count may be taken to count with a path that leads nowhere. -/
theorem SigningCall.countsAt (c : SigningCall) : c.CountsAt (c.serial?.getD ⟨""⟩) := by
  cases c <;> first | exact rfl | trivial

def SigningCall.CountsIn (c : SigningCall) (t : FileTree) (l : Location) : Prop :=
  ∃ serial, c.serial? = some serial ∧ t.goal? serial = some l

/-- The days that a call asks for end when no certificate can say so. -/
def SigningCall.Undated (c : SigningCall) (now : Instant) : Prop :=
  ∃ days, c.days? = some days ∧ validity now days = none

namespace Signer

variable {κ : Type} {keys : KeyScheme κ}

namespace InProcess

open Work

variable {undated : Prop} {out : Path} {w : World Entropy}

/-- How work ends that makes one new file at most. -/
inductive Making (undated : Prop) (out : Path) (t : FileTree) :
    Except Stop Unit → FileTree → Prop where
  | made {mode : FileMode} {content : Bytes} {after : FileTree}
    (created : t.create out mode content = .ok after) : Making undated out t (.ok ()) after
  | refused (e : SigningError) : Making undated out t (.error (.refused e)) t
  | aborted (past : undated) : Making undated out t (.error .aborted) t

theorem Certification.making {pair : κ} {body : Date × Date → CertificateBody} {now : Instant}
    {days : Nat} {t after : FileTree} {result : Except Stop Unit}
    (ended : Certification keys pair body now days out t result after) :
    Making (validity now days = none) out t result after := by
  cases ended with
  | made _ _ created => exact .made created
  | undated undated => exact .aborted undated
  | unsigned => exact .refused _
  | occupied => exact .refused _

theorem Making.imp {undated' : Prop} {t after : FileTree} {result : Except Stop Unit}
    (imp : undated → undated') (ended : Making undated out t result after) :
    Making undated' out t result after := by
  cases ended with
  | made created => exact .made created
  | refused e => exact .refused e
  | aborted past => exact .aborted (imp past)

def MakesAtMost (undated : Prop) (out : Path) (x : Step Unit) : Prop :=
  ∀ w, Making undated out w.tree (x.runOn w).1 (x.runOn w).2.tree

theorem MakesAtMost.throw (e : SigningError) :
    MakesAtMost undated out (MonadExcept.throw (.refused e)) :=
  fun _ => .refused e

theorem MakesAtMost.writeNew (mode : FileMode) (content : Bytes) :
    MakesAtMost undated out (writeNew out mode content) := by
  intro w
  rw [runOn_writeNew]
  split
  · next created => exact .made created
  · exact .refused _

theorem MakesAtMost.after {α : Type} {x : Step α} {f : α → Step Unit}
    (before : ∀ w, (∃ a between, x.runOn w = (.ok a, between) ∧ between.tree = w.tree) ∨
      ∃ e, x.runOn w = (.error (.refused e), w))
    (next : ∀ a, MakesAtMost undated out (f a)) : MakesAtMost undated out (x >>= f) := by
  intro w
  rcases before w with ⟨a, between, ran, same⟩ | ⟨e, ran⟩
  · rw [runOn_bind_ok f ran, ← same]
    exact next a between
  · rw [runOn_bind_error f ran]
    exact .refused e

theorem makesAtMost_generateKey (method : KeyMethod) (passphrase : Option String) (out : Path) :
    MakesAtMost undated out (generateKey keys method passphrase out) := by
  unfold generateKey
  dsimp only
  split
  · exact .throw _
  split
  · exact .throw _
  refine .after (fun w => .inl ⟨_, _, runOn_scalar w, rfl⟩) fun secret => ?_
  split
  · exact .writeNew _ _
  · exact .throw _

theorem makesAtMost_selfSign (now : Instant) (key : Path) (passphrase : Option String)
    (subject : Subject) (days : Nat) (out : Path) :
    MakesAtMost (validity now days = none) out
      (selfSign keys now key passphrase subject days out) := by
  intro w
  rcases runOn_selfSign keys now key passphrase subject days out w with
    ⟨_, e, refused⟩ | ⟨_, pair, _, ran⟩
  · rw [refused]
    exact .refused e
  · rw [ran]
    exact (runOn_writeCertificate keys pair _ now days out ⟨w.tree, w.memory.block.2⟩).making

theorem makesAtMost_createRequest (key : Path) (subject : Subject) (out : Path) :
    MakesAtMost undated out (createRequest keys key subject out) := by
  refine .after (fun w => ?_) fun pair => ?_
  · rcases decides_readKey keys key w with ⟨pair, _, ran⟩ | ⟨_, e, ran⟩
    · exact .inl ⟨pair, w, ran, rfl⟩
    · exact .inr ⟨e, ran⟩
  refine .after (fun w => .inl ⟨_, _, runOn_scalar w, rfl⟩) fun once => ?_
  refine .after (fun w => ?_) fun der => .writeNew _ _
  cases SigningRequest.sign subject keys pair once with
  | error fault => exact .inr ⟨_, rfl⟩
  | ok der => exact .inl ⟨der, w, rfl, rfl⟩

theorem refused_of_unchecked (now : Instant) {c : SigningCall}
    (unchecked : ¬Checked keys w.tree c) : ∃ e after,
      (perform keys now c).runOn w = (.error (.refused e), after) ∧ after.tree = w.tree := by
  cases c with
  | key method passphrase out =>
    rw [perform, generateKey]
    dsimp only
    split
    · exact ⟨_, w, rfl, rfl⟩
    next ecc =>
    split
    · exact ⟨_, w, rfl, rfl⟩
    · next unprotected =>
      exact absurd ⟨by simpa using ecc, by simpa using unprotected⟩ unchecked
  | selfSign key passphrase subject days config out =>
    rcases runOn_selfSign keys now key passphrase subject days out w with
      ⟨_, e, refused⟩ | ⟨unprotected, pair, held, _⟩
    · exact ⟨e, w, refused, rfl⟩
    · exact absurd ⟨unprotected, pair, held⟩ unchecked
  | request key subject config out =>
    rw [perform, createRequest]
    rcases (decides_readKey keys key w).bind _ with ⟨pair, held, _⟩ | ⟨_, e, ran⟩
    · exact absurd ⟨pair, held⟩ unchecked
    · exact ⟨e, w, ran, rfl⟩
  | sign request authority passphrase days extensions out =>
    rcases signRequest_counts keys now request authority passphrase days extensions out w with
      ⟨_, refused⟩ | ⟨signable, _⟩
    · exact refused
    · exact absurd signable unchecked

theorem makesAtMost_of_uncounted (now : Instant) {c : SigningCall} (uncounted : c.serial? = none) :
    MakesAtMost (c.Undated now) c.out (perform keys now c) := by
  cases c with
  | key method passphrase out => exact makesAtMost_generateKey method passphrase out
  | selfSign key passphrase subject days config out =>
    exact fun w => (makesAtMost_selfSign now key passphrase subject days out w).imp
      fun past => ⟨days, rfl, past⟩
  | request key subject config out => exact makesAtMost_createRequest key subject out
  | sign => cases uncounted

theorem not_ok_of_occupied (keys : KeyScheme κ) (now : Instant) {c : SigningCall} {e : Entry}
    (entry : w.tree.entryAt c.out = .ok e) :
    ∃ stop after, (perform keys now c).runOn w = (.error stop, after) := by
  rcases ran : (perform keys now c).runOn w with ⟨stop | _, after⟩
  · exact ⟨stop, after, rfl⟩
  · obtain ⟨_, _, _, vacant, _⟩ := (perform_outputs keys now c.countsAt).adds.makes w after ran
    cases (FileTree.vacancy?_of_entryAt entry).symm.trans vacant

theorem counts_of_checked (now : Instant) {c : SigningCall} {serial : Path}
    (counting : c.serial? = some serial) (checked : Checked keys w.tree c) :
    ∃ number counted pair body days, c.days? = some days ∧
      (w.tree.counter serial).Allows number ∧ (∀ window, (body window).serial = number) ∧
      w.tree.write serial (Text.Utf8.encode (Serial.print number)) = .ok counted ∧
      Certification keys pair body now days c.out counted ((perform keys now c).runOn w).1
        ((perform keys now c).runOn w).2.tree := by
  cases c with
  | sign request authority passphrase days extensions out =>
    cases counting
    rcases signRequest_counts keys now request authority passphrase days extensions out w with
      ⟨unready, _⟩ | ⟨_, m, _, number, counted, allowed, written, ran⟩
    · exact absurd checked unready
    · refine ⟨number, counted.tree, m.pair, .leaf m.issuer m.wish m.given number, days, rfl,
        allowed, fun _ => rfl, written, ?_⟩
      rw [perform, ran]
      exact runOn_writeCertificate keys m.pair _ now days out counted
  | _ => cases counting

theorem filesChanged_perform (keys : KeyScheme κ) (now : Instant) (c : SigningCall)
    (w : World Entropy) :
    w.tree.FilesChanged (fun l => w.tree.vacancy? c.out = some l ∨ c.CountsIn w.tree l)
      ((perform keys now c).runOn w).2.tree := by
  apply ((perform_outputs keys now c.countsAt).adds.changes w).mono
  rintro l (vacant | goal)
  · exact .inl vacant
  · right
    cases c with
    | sign => exact ⟨_, rfl, goal⟩
    | _ => cases goal

/-- The file at the place of the new one is lost where it is the file that the call counts with. -/
theorem recounted (now : Instant) {c : SigningCall} {mode : FileMode} {content : Bytes}
    {place : Location} (checked : Checked keys w.tree c)
    (entry : w.tree.entryAt c.out = .ok (.file mode content))
    (goal : w.tree.goal? c.out = some place) (counts : c.CountsIn w.tree place) :
    ((perform keys now c).runOn w).2.tree.entryAt c.out ≠ .ok (.file mode content) := by
  intro kept
  obtain ⟨serial, counting, same⟩ := counts
  obtain ⟨number, counted, _, _, _, _, allowed, _, written, ended⟩ :=
    counts_of_checked now counting checked
  have ways := (filesChanged_perform keys now c w).sameWays
  have before := FileTree.read_of_goal? entry goal same
  have after := FileTree.read_of_goal? kept ((FileTree.goal?_of_sameWays ways c.out).trans goal)
    ((FileTree.goal?_of_sameWays ways serial).trans same)
  have printed := ended.read (FileTree.read_of_write written)
  rw [printed] at after
  cases after
  -- With the same bytes as before, the file said the number already that was taken only now.
  rw [FileTree.counter_of_read before] at allowed
  have next : Der.natOfBytes number = Der.natOfBytes number + 1 :=
    (congrArg Der.natOfBytes allowed).trans (Serial.natOfBytes_increment number)
  omega

end InProcess

open InProcess

/-- The file that a call is to make is there already, and is the one that the call counts with. -/
def Recounts (t : FileTree) (c : SigningCall) : Prop :=
  (∃ mode content, t.entryAt c.out = .ok (.file mode content)) ∧
    ∃ place, t.goal? c.out = some place ∧ c.CountsIn t place

/-- How the in-process signer treats the files there are. -/
structure Careful (keys : KeyScheme κ) (now : Instant) (c : SigningCall) (w : World Entropy)
    (result : Except Stop Unit) (after : FileTree) : Prop where
  keeps : ∀ l e, w.tree.get? l = some e → ¬c.CountsIn w.tree l → after.get? l = some e
  adds : ∀ l, w.tree.get? l = none → after.get? l ≠ none →
    w.tree.vacancy? c.out = some l ∨ c.CountsIn w.tree l
  occupied : ∀ e, w.tree.entryAt c.out = .ok e → (∃ stop, result = .error stop) ∧
    (after.entryAt c.out = .ok e ↔ ¬(Checked keys w.tree c ∧ Recounts w.tree c))
  refused : ¬Checked keys w.tree c → (∃ e, result = .error (.refused e)) ∧ after = w.tree
  uncounted : c.serial? = none → Making (c.Undated now) c.out w.tree result after
  counted : ∀ serial, c.serial? = some serial → Checked keys w.tree c →
    ∃ number counted pair body days, c.days? = some days ∧
      (w.tree.counter serial).Allows number ∧ (∀ window, (body window).serial = number) ∧
      w.tree.write serial (Text.Utf8.encode (Serial.print number)) = .ok counted ∧
      counted.counter serial = .last number ∧
      Certification keys pair body now days c.out counted result after

theorem Careful.undated_of_aborted {now : Instant} {c : SigningCall} {w : World Entropy}
    {after : FileTree} (careful : Careful keys now c w (.error .aborted) after) :
    c.Undated now := by
  cases counting : c.serial? with
  | none =>
    cases careful.uncounted counting with
    | aborted past => exact past
  | some serial =>
    by_cases checked : Checked keys w.tree c
    · obtain ⟨_, _, _, _, days, asked, _, _, _, _, ended⟩ :=
        careful.counted serial counting checked
      cases ended with
      | undated past => exact ⟨days, asked, past⟩
    · obtain ⟨⟨e, refused⟩, _⟩ := careful.refused checked
      cases refused

theorem entryAt_out_iff (keys : KeyScheme κ) (now : Instant) {c : SigningCall} {w : World Entropy}
    {e : Entry} (entry : w.tree.entryAt c.out = .ok e) :
    ((perform keys now c).runOn w).2.tree.entryAt c.out = .ok e ↔
      ¬(Checked keys w.tree c ∧ Recounts w.tree c) := by
  constructor
  · rintro kept ⟨checked, ⟨mode, content, file⟩, place, goal, counts⟩
    cases entry.symm.trans file
    exact recounted now checked entry goal counts kept
  · intro spared
    by_cases checked : Checked keys w.tree c
    · apply (filesChanged_perform keys now c w).keeps_entryAt entry
      rintro file l goal (vacant | counts)
      · cases (FileTree.vacancy?_of_entryAt entry).symm.trans vacant
      · cases e with
        | file mode content => exact spared ⟨checked, ⟨mode, content, entry⟩, l, goal, counts⟩
        | _ => cases file
    · obtain ⟨_, after, ran, same⟩ := refused_of_unchecked now checked
      rw [ran]
      dsimp only
      rw [same, entry]

/-- Whatever it is asked for, the in-process signer leaves every entry as it is but the file that
    it counts with; and what fails its checks leaves that as it is, too. -/
theorem inProcess_careful (keys : KeyScheme κ) (now : Instant) (c : SigningCall)
    (w : World Entropy) :
    Careful keys now c w ((perform keys now c).runOn w).1
      ((perform keys now c).runOn w).2.tree where
  keeps l e entry apart := by
    rw [← entry]
    refine (filesChanged_perform keys now c w).frame (Or.rec (fun vacant => ?_) apart)
    cases entry.symm.trans (FileTree.get?_of_vacancy? vacant)
  adds l free new := ((filesChanged_perform keys now c w).only l (free ▸ new)).1
  occupied e entry := by
    obtain ⟨stop, after, ran⟩ := not_ok_of_occupied keys now entry
    exact ⟨⟨stop, congrArg Prod.fst ran⟩, entryAt_out_iff keys now entry⟩
  refused unchecked := by
    obtain ⟨e, after, ran, same⟩ := refused_of_unchecked now unchecked
    exact ⟨⟨e, congrArg Prod.fst ran⟩, by rw [ran, same]⟩
  uncounted uncounted := makesAtMost_of_uncounted now uncounted w
  counted serial counting checked := by
    obtain ⟨number, counted, pair, body, days, asked, allowed, numbered, written, ended⟩ :=
      counts_of_checked now counting checked
    exact ⟨number, counted, pair, body, days, asked, allowed, numbered, written,
      FileTree.counter_of_read (FileTree.read_of_write written), ended⟩

namespace Sample

def onItsCounter : SigningCall := .sign request files none 365 none files.serial

end Sample

open NetworkCa.Signer.Sample in
theorem not_occupied_kept :
    ¬ ∀ (now : Instant) (c : SigningCall) (w : World Entropy) (e : Entry),
      w.tree.entryAt c.out = .ok e →
        ((perform .p256 now c).runOn w).2.tree.entryAt c.out = .ok e := by
  intro claim
  have entry : tree.entryAt files.serial =
      .ok (.file .plain (Text.Utf8.encode "0a1B\n")) := rfl
  have goal : tree.goal? files.serial = some ["CA", "ca.srl"] := rfl
  exact recounted 0 (c := onItsCounter) (w := outset) signable entry goal
    ⟨files.serial, rfl, goal⟩ (claim 0 _ _ _ entry)

end Signer

end NetworkCa
