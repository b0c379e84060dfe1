import NetworkCa.Proofs.Bundle.Stages
import NetworkCa.Proofs.Pem.Concatenation

namespace NetworkCa.Bundle

variable {σ : Type} {s : Signer σ} {ca : AuthoritySettings} {leaf : LeafSettings} {i : Identity}
  {w after : World σ} {files : BundleFiles} {place : Location} {mode : FileMode}
  {content : Bytes} {slash : Bool}

def Signed (s : Signer σ) (ca : AuthoritySettings) (leaf : LeafSettings) (i : Identity)
    (w signed : World σ) : Prop :=
  ∃ subject t, prepared ca.files leaf i w.tree = (.ok subject, t) ∧
    (sign s ca leaf subject (.ofIdentity i)).runOn { w with tree := t } = (.ok (), signed)

theorem of_issue_ok (h : (issue s ca leaf i).runOn w = (.ok files, after)) :
    ∃ signed, Signed s ca leaf i w signed ∧ files = .ofIdentity i ∧
      signed.tree.appendFile ca.files.cert files.chain = .ok after.tree := by
  rw [runOn_issue] at h
  rcases ready : prepared ca.files leaf i w.tree with ⟨e | subject, t⟩
  · simp [ready] at h
  · simp only [ready] at h
    rcases done : (sign s ca leaf subject (.ofIdentity i)).runOn { w with tree := t } with
      ⟨e | _, signed⟩
    · simp [done] at h
    · simp only [done] at h
      rcases added : signed.tree.appendFile ca.files.cert (BundleFiles.ofIdentity i).chain with
        e | t'
      · simp [added] at h
      · simp only [added, Prod.mk.injEq, Except.ok.injEq] at h
        obtain ⟨rfl, rfl⟩ := h
        exact ⟨signed, ⟨subject, t, ready, done⟩, rfl, added⟩

/-- The directories and links are those of `start`, and `place` has the entry `e`. -/
structure Stands (start : FileTree) (place : Location) (e : Entry) (t : FileTree) : Prop where
  ways : start.SameWays t
  entry : t.get? place = some e

theorem Stands.of_call {start : FileTree} {e : Entry} {serial : Path} (signer : s.MakesAnew serial)
    (other : start.goal? serial ≠ some place) (stands : Stands start place e w.tree)
    {c : SigningCall} {result : Except SigningError Unit}
    (called : (s c).runOn w = (result, after)) (counts : c.CountsAt serial) :
    Stands start place e after.tree := by
  refine ⟨stands.ways.trans (signer.sameWays_of_call called counts), ?_⟩
  apply signer.get?_of_call called counts stands.entry
  rwa [FileTree.goal?_of_sameWays stands.ways]

/-- A bundle's chain file is what it was when it was signed, and behind that the content of the
    authority's certificate. As a chain it is one certificate longer than the authority's, provided
    that the signer made one certificate. -/
def Extends (authority : AuthorityFiles) (files : BundleFiles) (content : Bytes)
    (before signed after : FileTree) : Prop :=
  ∃ mode bytes, signed.entryAt files.chain = .ok (.file mode bytes) ∧
    after.entryAt files.chain = .ok (.file mode (bytes ++ content)) ∧
    ∀ raw der, Pem.readRaw bytes = some (raw, []) → raw.block = .ok ⟨Certificate.label, der⟩ →
      Certificate.readChain after files.chain =
        (Certificate.readChain before authority.cert).map (der :: ·)

theorem readChain_of_read {t : FileTree} {p : Path} (h : t.read p = .ok content) :
    Certificate.readChain t p =
      (Certificate.chainOfText content).mapError IssuanceError.certificate := by
  rw [Certificate.readChain, h]
  dsimp only
  cases Certificate.chainOfText content <;> rfl

theorem readChain_extended {t t' : FileTree} {p q : Path} {bytes der : Bytes} {raw : Pem.Raw}
    (before : t.read p = .ok content) (after : t'.read q = .ok (bytes ++ content))
    (one : Pem.readRaw bytes = some (raw, [])) (block : raw.block = .ok ⟨Certificate.label, der⟩) :
    Certificate.readChain t' q = (Certificate.readChain t p).map (der :: ·) := by
  rw [readChain_of_read before, readChain_of_read after,
    Certificate.chainOfText_append one block]
  cases Certificate.chainOfText content <;> rfl

theorem entryAt_of_vacancy? {t t' : FileTree} {p : Path} (keeps : t.KeepsWays t')
    (vacant : t.vacancy? p = some place) (made : t'.get? place = some (.file mode content)) :
    t'.entryAt p = .ok (.file mode content) ∧
      t'.lookup .reach p = .ok (.taken place (.file mode content) false) := by
  have looked (purpose : FileTree.Purpose) :
      t'.lookup purpose p = FileTree.arrive purpose place false (some (.file mode content)) := by
    rw [← made]
    exact FileTree.lookup_of_vacancy? keeps vacant purpose (by simp [made])
  refine ⟨?_, looked .reach⟩
  rw [FileTree.entryAt, looked .inspect]
  rfl

theorem extends_of_append {authority : AuthorityFiles} {before requested signed done : FileTree}
    {bytes : Bytes} {fileMode : FileMode} {goal : Location} (same : requested.SameWays signed)
    (vacant : requested.vacancy? files.chain = some goal)
    (made : signed.get? goal = some (.file fileMode bytes))
    (cert : before.read authority.cert = .ok content)
    (kept : signed.read authority.cert = .ok content)
    (added : signed.appendFile authority.cert files.chain = .ok done) :
    Extends authority files content before signed done := by
  obtain ⟨entry, looked⟩ := entryAt_of_vacancy? same.keeps vacant made
  obtain ⟨content', goal', mode', old, slash', read, reached, rfl⟩ :=
    FileTree.of_appendFile_ok added
  cases kept.symm.trans read
  cases looked.symm.trans reached
  have unway : signed.way? goal = none :=
    FileTree.way?_eq_none.2 (.inr ⟨fileMode, bytes, made⟩)
  have put : signed.FilesChanged (· = goal)
      (signed.put goal (.file fileMode (bytes ++ content))) := FileTree.filesChanged_put unway
  obtain ⟨entry', looked'⟩ := entryAt_of_vacancy? (same.trans put.sameWays).keeps vacant
    (FileTree.get?_put_of_unway unway)
  refine ⟨fileMode, bytes, entry, entry', fun raw der one block => ?_⟩
  exact readChain_extended cert (FileTree.read_eq_ok.2 ⟨_, _, _, looked'⟩) one block

/-- A bundle that is issued ends with the certificate of its authority as it was at the outset. -/
theorem issue_extends_chain (signer : s.MakesAnew ca.files.serial)
    (cert : w.tree.lookup .reach ca.files.cert = .ok (.taken place (.file mode content) slash))
    (apart : ∀ p ∈ (BundleFiles.ofIdentity i).stale, ∀ l ∈ w.tree.named? p,
      l ∉ w.tree.route .reach ca.files.cert)
    (counter : (prepared ca.files leaf i w.tree).2.goal? ca.files.serial ≠ some place)
    (issued : (issue s ca leaf i).runOn w = (.ok files, after)) :
    ∃ signed, Signed s ca leaf i w signed ∧
      Extends ca.files (.ofIdentity i) content w.tree signed.tree after.tree := by
  obtain ⟨signed, work, rfl, added⟩ := of_issue_ok issued
  refine ⟨signed, work, ?_⟩
  obtain ⟨subject, t, ready, done⟩ := work
  have found : (prepared ca.files leaf i w.tree).2.lookup .reach ca.files.cert =
      .ok (.taken place (.file mode content) slash) := prepared_lookup cert (by simp) apart
  rw [ready] at found counter
  obtain ⟨keyed, requested, first, second, third⟩ := of_runOn_sign_ok done
  have atFirst : Stands t place (.file mode content) t :=
    ⟨.refl t, FileTree.get?_of_lookup_taken found (by simp)⟩
  have atKeyed := Stands.of_call signer counter atFirst first trivial
  have atRequested := atKeyed.of_call signer counter second trivial
  have atSigned := atRequested.of_call signer counter third rfl
  obtain ⟨goal, fileMode, bytes, vacant, made⟩ := signer.of_call_ok third rfl
  have kept : signed.tree.lookup .reach ca.files.cert = _ :=
    FileTree.lookup_of_keepsWays atSigned.ways.keeps found
      (atSigned.entry.trans atFirst.entry.symm)
  exact extends_of_append (signer.sameWays_of_call third rfl) vacant made
    (FileTree.read_eq_ok.2 ⟨_, _, _, cert⟩) (FileTree.read_eq_ok.2 ⟨_, _, _, kept⟩) added

def Sample.signer : Signer Unit := .stamping [3] [4] authority.files.serial

theorem issue_extends_chain_of_client :
    ∃ files after signed,
      (issue Sample.signer Sample.authority Sample.settings Sample.client).runOn ⟨Sample.tree, ()⟩ =
        (.ok files, after) ∧
      Signed Sample.signer Sample.authority Sample.settings Sample.client ⟨Sample.tree, ()⟩ signed ∧
      Extends Sample.authority.files (.ofIdentity Sample.client) [2] Sample.tree signed.tree
        after.tree := by
  have issued : (issue Sample.signer Sample.authority Sample.settings Sample.client).runOn
      ⟨Sample.tree, ()⟩ = (.ok (.ofIdentity Sample.client), _) :=
    Prod.ext (eq_ok_of_toOption (by decide +kernel)) rfl
  have cert : Sample.tree.lookup .reach Sample.authority.files.cert =
      .ok (.taken ["CA", "ca.pem"] (.file .plain [2]) false) :=
    eq_ok_of_toOption (by decide +kernel)
  have apart : ∀ p ∈ (BundleFiles.ofIdentity Sample.client).stale, ∀ l ∈ Sample.tree.named? p,
      l ∉ Sample.tree.route .reach Sample.authority.files.cert := by decide +kernel
  have counter : (prepared Sample.authority.files Sample.settings Sample.client
      Sample.tree).2.goal? Sample.authority.files.serial ≠ some ["CA", "ca.pem"] := by
    decide +kernel
  obtain ⟨signed, work, chain⟩ := issue_extends_chain (w := ⟨Sample.tree, ()⟩)
    (Signer.stamping_makesAnew _ _ _) cert apart counter issued
  exact ⟨_, _, signed, issued, work, chain⟩

/-- Where the link of a bundle stands in for the serial number of the authority, counting writes
    over the certificate before it is added. -/
theorem issue_extends_chain_needs_counter :
    ¬ ∀ (s : Signer Unit) (ca : AuthoritySettings) (leaf : LeafSettings) (i : Identity)
      (w after : World Unit) (files : BundleFiles) (place : Location) (mode : FileMode)
      (content : Bytes) (slash : Bool),
      s.MakesAnew ca.files.serial →
      w.tree.lookup .reach ca.files.cert = .ok (.taken place (.file mode content) slash) →
      (∀ p ∈ (BundleFiles.ofIdentity i).stale, ∀ l ∈ w.tree.named? p,
        l ∉ w.tree.route .reach ca.files.cert) →
      (issue s ca leaf i).runOn w = (.ok files, after) →
      ∃ signed, Signed s ca leaf i w signed ∧
        Extends ca.files (.ofIdentity i) content w.tree signed.tree after.tree := by
  intro claim
  have issued : (issue Sample.signer Sample.authority Sample.settings Sample.intruder).runOn
      ⟨Sample.tree, ()⟩ = (.ok (.ofIdentity Sample.intruder), _) :=
    Prod.ext (eq_ok_of_toOption (by decide +kernel)) rfl
  have cert : Sample.tree.lookup .reach Sample.authority.files.cert =
      .ok (.taken ["CA", "ca.pem"] (.file .plain [2]) false) :=
    eq_ok_of_toOption (by decide +kernel)
  have apart : ∀ p ∈ (BundleFiles.ofIdentity Sample.intruder).stale, ∀ l ∈ Sample.tree.named? p,
      l ∉ Sample.tree.route .reach Sample.authority.files.cert := by decide +kernel
  obtain ⟨signed, _, mode, bytes, _, chain, _⟩ :=
    claim _ _ _ _ ⟨Sample.tree, ()⟩ _ _ _ _ _ _ (Signer.stamping_makesAnew _ _ _) cert apart issued
  have found : ((issue Sample.signer Sample.authority Sample.settings Sample.intruder).runOn
      ⟨Sample.tree, ()⟩).2.tree.entryAt (BundleFiles.ofIdentity Sample.intruder).chain =
      .ok (.file .plain [3, 4]) := eq_ok_of_toOption (by decide +kernel)
  have same := congrArg Except.toOption (found.symm.trans chain)
  simp only [Except.toOption, Option.some.injEq, Entry.file.injEq] at same
  have last := congrArg List.getLast? same.2
  simp at last

end NetworkCa.Bundle
