import NetworkCa.Proofs.Authority.Stages
import NetworkCa.Proofs.Bundle.Custody
import NetworkCa.Signing.Recording

namespace NetworkCa.Authority

variable {σ : Type} {files : AuthorityFiles} {start : World σ} {s : Signer σ}
  {settings : AuthoritySettings} {t t' : FileTree}

structure Founding (σ : Type) where
  signer : Signer σ
  settings : AuthoritySettings
  before : World σ

def Founding.after (f : Founding σ) : World σ :=
  ((bootstrap f.signer f.settings).runOn f.before).2

/-- The authority's key and certificate are the same in both trees, or missing from both. -/
def SameRoot (files : AuthorityFiles) (t t' : FileTree) : Prop :=
  ∀ p ∈ [files.key, files.cert], (t'.read p).toOption = (t.read p).toOption

instance : Decidable (SameRoot files t t') :=
  inferInstanceAs (Decidable (∀ p ∈ [files.key, files.cert], _))

/-- What may have happened since `start`, with the foundings among it, the latest first: foundings
    of the same authority, and bundles that touch none of its files but the serial number's. -/
inductive Reached (files : AuthorityFiles) (start : World σ) : List (Founding σ) → World σ → Prop
  | start : Reached files start [] start
  | found {foundings : List (Founding σ)} {now : World σ} (s : Signer σ)
      (settings : AuthoritySettings) : Reached files start foundings now →
      settings.files = files →
      Reached files start (⟨s, settings, now⟩ :: foundings) (Founding.after ⟨s, settings, now⟩)
  | issue {foundings : List (Founding σ)} {now : World σ} (s : Signer σ)
      (settings : AuthoritySettings) (leaf : LeafSettings) (i : Identity) :
      Reached files start foundings now →
      SameRoot files now.tree ((Bundle.issue s settings leaf i).runOn now).2.tree →
      Reached files start foundings ((Bundle.issue s settings leaf i).runOn now).2

/-- The authority's key and certificate come from this founding: it removed what was there, and
    the serial number with it, and what it left is what there is now. -/
structure Founding.Made (f : Founding σ) (files : AuthorityFiles) (now : FileTree) : Prop where
  cleaned : ∃ subject t, cleaned f.settings f.before.tree = (.ok subject, t) ∧
    ∀ p ∈ [files.key, files.cert, files.serial], t.Absent p
  kept : Bundle.SameAuthority files f.after.tree now

theorem SameRoot.sameAuthority (same : SameRoot files t t') (present : isPresent t' files = true) :
    Bundle.SameAuthority files t t' := by
  intro p hp
  obtain ⟨content, after, _⟩ := Bundle.isPresent_iff.1 present p hp
  have before := same p hp
  rw [after] at before
  exact ⟨content, eq_ok_of_toOption before.symm, after⟩

theorem isPresent_of_sameAuthority (same : Bundle.SameAuthority files t t') :
    isPresent t files = true := by
  rw [Bundle.isPresent_iff]
  intro p hp
  obtain ⟨content, before, _⟩ := same p hp
  exact ⟨content, before, before⟩

theorem cleaned_cases (settings : AuthoritySettings) (t : FileTree) :
    (∃ e, cleaned settings t = (.error e, t)) ∨
      (∃ e t', cleaned settings t = (.error e, t') ∧ t'.isFile settings.files.key = false) ∨
      ∃ subject t', cleaned settings t = (.ok subject, t') ∧
        ∀ p ∈ [settings.files.key, settings.files.cert, settings.files.serial], t'.Absent p := by
  unfold cleaned
  dsimp only
  rcases Subject.parse settings.subject with fault | subject
  · exact .inl ⟨_, rfl⟩
  dsimp only
  rcases t.ensureDirectory settings.files.dir with e | ready
  · exact .inl ⟨_, rfl⟩
  dsimp only
  right
  have keyless := Bundle.not_isFile_of_cleared settings.files.key
    [settings.files.cert, settings.files.serial] ready
  rcases tidied : Bundle.cleared [settings.files.key, settings.files.cert, settings.files.serial]
    ready with ⟨e | _, tidy⟩ <;> rw [tidied] at keyless
  · exact .inl ⟨e, tidy, rfl, keyless⟩
  · exact .inr ⟨subject, tidy, rfl, Bundle.absent_of_cleared tidied⟩

/-- A founding changes nothing, or leaves no key, or has removed all there was. -/
theorem founding_cases (f : Founding σ) :
    f.after.tree = f.before.tree ∨ f.after.tree.isFile f.settings.files.key = false ∨
      ∃ subject t, cleaned f.settings f.before.tree = (.ok subject, t) ∧
        ∀ p ∈ [f.settings.files.key, f.settings.files.cert, f.settings.files.serial],
          t.Absent p := by
  rw [Founding.after, runOn_bootstrap]
  rcases cleaned_cases f.settings f.before.tree with
    ⟨e, stopped⟩ | ⟨e, t, stopped, keyless⟩ | ⟨subject, t, ready, absent⟩
  · rw [stopped]
    exact .inl rfl
  · rw [stopped]
    exact .inr (.inl keyless)
  · exact .inr (.inr ⟨subject, t, ready, absent⟩)

namespace Sample

def outset : World (Unit × List SigningCall) := ⟨⟨[(["client"], .directory)], []⟩, ((), [])⟩

def halfMade : Founding (Unit × List SigningCall) :=
  ⟨.recording (some ".pem") false, Bundle.Sample.authority, outset⟩

def made : Founding (Unit × List SigningCall) :=
  ⟨.recording none false, Bundle.Sample.authority, halfMade.after⟩

def refused : Founding (Unit × List SigningCall) :=
  ⟨.recording none false, { Bundle.Sample.authority with subject := "" }, made.after⟩

def now : World (Unit × List SigningCall) :=
  ((Bundle.issue (.recording none false) Bundle.Sample.authority Bundle.Sample.settings
    Bundle.Sample.client).runOn refused.after).2

end Sample

end NetworkCa.Authority
