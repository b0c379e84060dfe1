import NetworkCa.Bundle.Issue
import NetworkCa.Proofs.Signing.Manners

namespace NetworkCa

variable {σ : Type}

namespace Issuance

theorem runOn_change (f : FileTree → Except IssuanceError FileTree) (w : World σ) :
    (change f).runOn w =
      match f w.tree with
      | .ok t => (.ok (), { w with tree := t })
      | .error e => (.error e, w) := by
  rw [change, Work.runOn_bind, Work.runOn_tree]
  dsimp only
  cases f w.tree <;> rfl

theorem runOn_call (s : Signer σ) (c : SigningCall) (w : World σ) :
    (call s c).runOn w =
      match (s c).runOn w with
      | (.ok (), after) => (.ok (), after)
      | (.error e, after) => (.error (.signing e), after) := by
  rw [call, Work.runOn_blaming]
  rcases (s c).runOn w with ⟨_ | _, _⟩ <;> rfl

end Issuance

def BundleFiles.made (f : BundleFiles) : List Path := [f.key, f.request, f.chain]

namespace Bundle

open FileTree (EntriesRemoved)

def cleared : List Path → FileTree → Except IssuanceError Unit × FileTree
  | [], t => (.ok (), t)
  | p :: rest, t =>
    match t.removeStale p with
    | .ok (_, t) => cleared rest t
    | .error e => (.error e, t)

theorem runOn_forM_clear (paths : List Path) (w : World σ) :
    (paths.forM Issuance.clear : Issuance σ Unit).runOn w =
      ((cleared paths w.tree).1, { w with tree := (cleared paths w.tree).2 }) := by
  induction paths generalizing w with
  | nil => rfl
  | cons p rest ih =>
    change Work.runOn (Issuance.clear p >>= fun _ => rest.forM Issuance.clear) w = _
    rw [Work.runOn_bind, Issuance.clear, Issuance.runOn_change, cleared]
    rcases w.tree.removeStale p with e | ⟨removed, t⟩
    · rfl
    · exact ih { w with tree := t }

theorem removeStale_removes {t t' : FileTree} {p : Path} {removed : Bool}
    (h : t.removeStale p = .ok (removed, t')) :
    EntriesRemoved (fun l => t.named? p = some l) t t' := by
  rcases FileTree.of_removeStale_ok h with rfl | ⟨place, found, rfl⟩
  · exact .refl _ _
  · apply (FileTree.entriesRemoved_erase (FileTree.below_of_named? found)).mono
    rintro l rfl
    exact found

theorem cleared_removes (paths : List Path) (t : FileTree) :
    EntriesRemoved (fun l => ∃ p ∈ paths, t.named? p = some l) t (cleared paths t).2 := by
  induction paths generalizing t with
  | nil => exact .refl _ _
  | cons p rest ih =>
    rw [cleared]
    rcases first : t.removeStale p with e | ⟨removed, between⟩
    · exact .refl _ _
    · have removal := removeStale_removes first
      have now : EntriesRemoved (fun l => ∃ q ∈ p :: rest, t.named? q = some l) t between :=
        removal.mono fun l found => ⟨p, List.mem_cons_self, found⟩
      apply now.trans
      apply (ih between).mono
      rintro l ⟨q, hq, found⟩
      exact ⟨q, List.mem_cons_of_mem p hq, removal.named?_before found⟩

/-- What comes before the signer's work: the subject, or why there is none, and the tree then. -/
def prepared (authority : AuthorityFiles) (leaf : LeafSettings) (i : Identity) (t : FileTree) :
    Except IssuanceError Subject × FileTree :=
  let files := BundleFiles.ofIdentity i
  if !t.exists? i.dir then (.error (.missingDirectory i.dir), t)
  else match Subject.forIdentity leaf.subject i with
    | .error fault => (.error (.subject fault), t)
    | .ok subject =>
      match cleared files.stale t with
      | (.error e, t) => (.error e, t)
      | (.ok (), t) =>
        let target :=
          Path.linkTarget leaf.linkStyle t.cwd i.dir authority.dir authority.certName
        match t.makeLink ⟨target⟩ files.link with
        | .ok t => (.ok subject, t)
        | .error failure => (.error (.io files.link failure), t)

/-- A file or link that is not found through anything to be cleared is found as before once a
    bundle is prepared, or once that has failed. -/
theorem prepared_lookup {authority : AuthorityFiles} {leaf : LeafSettings} {i : Identity}
    {t : FileTree} {purpose : FileTree.Purpose} {p : Path} {place : Location} {e : Entry}
    {slash : Bool} (h : t.lookup purpose p = .ok (.taken place e slash)) (other : e ≠ .directory)
    (apart : ∀ q ∈ (BundleFiles.ofIdentity i).stale, ∀ l ∈ t.named? q, l ∉ t.route purpose p) :
    (prepared authority leaf i t).2.lookup purpose p = .ok (.taken place e slash) := by
  have removal := cleared_removes (BundleFiles.ofIdentity i).stale t
  have found := (removal.lookup_eq fun l ⟨q, hq, named⟩ => apart q hq l named).trans h
  unfold prepared
  dsimp only
  split
  · exact h
  split
  · exact h
  rcases tidied : cleared (BundleFiles.ofIdentity i).stale t with ⟨_ | _, tidy⟩ <;>
    rw [tidied] at found
  · exact found
  dsimp only
  rcases linked : tidy.makeLink _ (BundleFiles.ofIdentity i).link with failure | after
  · exact found
  obtain ⟨free, looked, rfl⟩ := FileTree.of_makeLink_ok linked
  exact FileTree.lookup_put_free (FileTree.get?_of_vacancy? looked) found other

theorem of_prepared_ok {authority : AuthorityFiles} {leaf : LeafSettings} {i : Identity}
    {t u : FileTree} {subject : Subject} (h : prepared authority leaf i t = (.ok subject, u)) :
    t.exists? i.dir = true ∧ Subject.forIdentity leaf.subject i = .ok subject ∧
      ∃ tidy, cleared (BundleFiles.ofIdentity i).stale t = (.ok (), tidy) ∧
        tidy.makeLink ⟨Path.linkTarget leaf.linkStyle tidy.cwd i.dir authority.dir
          authority.certName⟩ (BundleFiles.ofIdentity i).link = .ok u := by
  unfold prepared at h
  dsimp only at h
  split at h; · cases h
  next there =>
  split at h; · cases h
  next named =>
  split at h; · cases h
  next tidy tidied =>
  split at h
  · next linked =>
    cases h
    exact ⟨by simpa using there, named, tidy, tidied, linked⟩
  · cases h

theorem prepared_ok {authority : AuthorityFiles} {leaf : LeafSettings} {i : Identity}
    {t tidy u : FileTree} {subject : Subject} (there : t.exists? i.dir = true)
    (named : Subject.forIdentity leaf.subject i = .ok subject)
    (tidied : cleared (BundleFiles.ofIdentity i).stale t = (.ok (), tidy))
    (linked : tidy.makeLink ⟨Path.linkTarget leaf.linkStyle tidy.cwd i.dir authority.dir
      authority.certName⟩ (BundleFiles.ofIdentity i).link = .ok u) :
    prepared authority leaf i t = (.ok subject, u) := by
  simp only [prepared, there, Bool.not_true, Bool.false_eq_true, if_false, named, tidied, linked]

theorem cleared_isFatal {paths : List Path} {t u : FileTree} {e : IssuanceError}
    (h : cleared paths t = (.error e, u)) : e.isFatal = true := by
  induction paths generalizing t with
  | nil => cases h
  | cons p rest ih =>
    rw [cleared] at h
    rcases first : t.removeStale p with e' | ⟨_, between⟩ <;> simp only [first] at h
    · cases h
      unfold FileTree.removeStale at first
      split at first <;> cases first
      rfl
    · exact ih h

theorem prepared_isFatal {authority : AuthorityFiles} {leaf : LeafSettings} {i : Identity}
    {t u : FileTree} {e : IssuanceError} (h : prepared authority leaf i t = (.error e, u)) :
    e.isFatal = true := by
  unfold prepared at h
  dsimp only at h
  split at h
  · cases h
    rfl
  split at h
  · cases h
    rfl
  split at h
  · next tidied =>
    cases h
    exact cleared_isFatal tidied
  split at h <;> cases h
  rfl

theorem runOn_link (authority : AuthorityFiles) (leaf : LeafSettings) (i : Identity)
    (files : BundleFiles) (w : World σ) :
    (link authority leaf i files).runOn w =
      match w.tree.makeLink ⟨Path.linkTarget leaf.linkStyle w.tree.cwd i.dir authority.dir
        authority.certName⟩ files.link with
      | .ok t => (.ok (), { w with tree := t })
      | .error failure => (.error (.io files.link failure), w) := by
  rw [link, Work.runOn_bind, Work.runOn_tree]
  exact Work.runOn_change _ _ _

theorem runOn_issue (s : Signer σ) (ca : AuthoritySettings) (leaf : LeafSettings) (i : Identity)
    (w : World σ) :
    (issue s ca leaf i).runOn w =
      match prepared ca.files leaf i w.tree with
      | (.error e, t) => (.error e, { w with tree := t })
      | (.ok subject, t) =>
        match (sign s ca leaf subject (.ofIdentity i)).runOn { w with tree := t } with
        | (.error e, signed) => (.error e, signed)
        | (.ok (), signed) =>
          match signed.tree.appendFile ca.files.cert (BundleFiles.ofIdentity i).chain with
          | .ok t => (.ok (.ofIdentity i), { signed with tree := t })
          | .error e => (.error e, signed) := by
  rw [issue, Work.runOn_bind, Work.runOn_tree, prepared]
  dsimp only
  by_cases missing : (!w.tree.exists? i.dir) = true
  · rw [if_pos missing, if_pos missing]
    rfl
  rw [if_neg missing, if_neg missing]
  rcases Subject.forIdentity leaf.subject i with fault | subject
  · rw [Work.runOn_bind, Work.runOn_lift_error]
  rw [Work.runOn_bind, Work.runOn_lift_ok]
  dsimp only
  rw [Work.runOn_bind, clear, runOn_forM_clear]
  rcases cleared (BundleFiles.ofIdentity i).stale w.tree with ⟨e | _, t⟩
  · rfl
  dsimp only
  rw [Work.runOn_bind, runOn_link]
  dsimp only
  rcases t.makeLink _ (BundleFiles.ofIdentity i).link with failure | linked
  · rfl
  dsimp only
  rw [Work.runOn_bind]
  rcases (sign s ca leaf subject (.ofIdentity i)).runOn ⟨linked, w.memory⟩ with ⟨e | _, signed⟩
  · rfl
  dsimp only
  rw [Work.runOn_bind, Issuance.runOn_change]
  rcases signed.tree.appendFile ca.files.cert (BundleFiles.ofIdentity i).chain with e | added <;>
    rfl

variable {s : Signer σ} {ca : AuthoritySettings} {leaf : LeafSettings} {subject : Subject}
  {files : BundleFiles} {w after : World σ}

theorem of_runOn_call_ok {c : SigningCall} (h : (Issuance.call s c).runOn w = (.ok (), after)) :
    (s c).runOn w = (.ok (), after) := by
  rw [Issuance.runOn_call] at h
  rcases called : (s c).runOn w with ⟨e | made, between⟩ <;> rw [called] at h
  · cases h
  · cases h
    rfl

theorem of_runOn_sign_ok (h : (sign s ca leaf subject files).runOn w = (.ok (), after)) :
    ∃ keyed requested, (s (.key ca.method none files.key)).runOn w = (.ok (), keyed) ∧
      (s (.request files.key subject ca.requestConfig files.request)).runOn keyed =
        (.ok (), requested) ∧
      (s (.sign files.request ca.files ca.keyPassphrase validityDays leaf.extensions
        files.chain)).runOn requested = (.ok (), after) := by
  obtain ⟨_, keyed, first, h⟩ := Work.of_runOn_bind_ok h
  obtain ⟨_, requested, second, h⟩ := Work.of_runOn_bind_ok h
  exact ⟨keyed, requested, of_runOn_call_ok first, of_runOn_call_ok second, of_runOn_call_ok h⟩

theorem sign_keeps {P : FileTree → Prop}
    (step : ∀ (c : SigningCall) w, c.out ∈ files.made →
      c.CountsAt ca.files.serial → P w.tree → P ((s c).runOn w).2.tree) (h : P w.tree) :
    P ((sign s ca leaf subject files).runOn w).2.tree := by
  have call (c : SigningCall) (w : World σ)
      (hc : c.out ∈ files.made) (counts : c.CountsAt ca.files.serial)
      (h : P w.tree) : P ((Issuance.call s c).runOn w).2.tree := by
    have kept := step c w hc counts h
    rw [Issuance.runOn_call]
    rcases called : (s c).runOn w with ⟨_ | _, between⟩ <;> rw [called] at kept <;> exact kept
  rw [sign, Work.runOn_bind]
  have first := call (.key ca.method none files.key) w (by simp [SigningCall.out, BundleFiles.made])
    trivial h
  rcases keyed : (Issuance.call s (.key ca.method none files.key)).runOn w with ⟨e | _, w₁⟩ <;>
    rw [keyed] at first
  · exact first
  dsimp only
  rw [Work.runOn_bind]
  have second := call (.request files.key subject ca.requestConfig files.request) w₁
    (by simp [SigningCall.out, BundleFiles.made]) trivial first
  rcases requested : (Issuance.call s
    (.request files.key subject ca.requestConfig files.request)).runOn w₁ with ⟨e | _, w₂⟩ <;>
    rw [requested] at second
  · exact second
  · exact call _ w₂ (by simp [SigningCall.out, BundleFiles.made]) rfl second

namespace Sample

def authority : AuthoritySettings :=
  { AuthoritySettings.default with dir := ⟨"CA"⟩, filename := "ca" }

def settings : LeafSettings := { LeafSettings.default with subject := "/C=CN" }

def client : Identity := .make .client ⟨"client"⟩ none none

def intruder : Identity := .make .client authority.dir none (some "ca.srl")

def tree : FileTree where
  entries := [(["CA"], .directory), (["CA", "ca.key"], .file .ownerOnly [1]),
    (["CA", "ca.pem"], .file .plain [2]), (["client"], .directory)]
  cwd := []

end Sample

end Bundle

end NetworkCa
