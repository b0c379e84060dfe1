import NetworkCa.Batch.Run
import NetworkCa.Proofs.Bundle.Stages
import NetworkCa.Proofs.FileTree.Shape

namespace NetworkCa

variable {σ ε δ α β : Type} {R : FileTree → FileTree → Prop} {S : σ → σ → Prop}

structure World.Matched (R : FileTree → FileTree → Prop) (S : σ → σ → Prop) (w w' : World σ) :
    Prop where
  tree : R w.tree w'.tree
  memory : S w.memory w'.memory

/-- From matched worlds, the two pieces of work end in the same way and in matched worlds. -/
def Work.Paired (R : FileTree → FileTree → Prop) (S : σ → σ → Prop) (x x' : Work σ ε α) : Prop :=
  ∀ w w', World.Matched R S w w' →
    (x'.runOn w').1 = (x.runOn w).1 ∧ World.Matched R S (x.runOn w).2 (x'.runOn w').2

namespace Work

theorem Paired.pure (a : α) : Paired R S (pure a : Work σ ε α) (pure a) :=
  fun _ _ matched => ⟨rfl, matched⟩

theorem Paired.throw (e : ε) : Paired R S (throw e : Work σ ε α) (throw e) :=
  fun _ _ matched => ⟨rfl, matched⟩

theorem Paired.lift (blame : δ → ε) (r : Except δ α) :
    Paired R S (lift blame r : Work σ ε α) (lift blame r) := by
  cases r with
  | ok a => exact .pure a
  | error e => exact .throw (blame e)

variable {x x' : Work σ ε α} {f f' : α → Work σ ε β}

theorem Paired.ends (h : Paired R S x x') {w w' : World σ} (matched : World.Matched R S w w') :
    ∃ result after after', x.runOn w = (result, after) ∧ x'.runOn w' = (result, after') ∧
      World.Matched R S after after' := by
  obtain ⟨result, after⟩ := h w w' matched
  exact ⟨(x.runOn w).1, (x.runOn w).2, (x'.runOn w').2, rfl, Prod.ext result rfl, after⟩

theorem Paired.bind (first : Paired R S x x') (next : ∀ a, Paired R S (f a) (f' a)) :
    Paired R S (x >>= f) (x' >>= f') := by
  intro w w' matched
  obtain ⟨result, after, after', ran, ran', between⟩ := first.ends matched
  rw [runOn_bind, runOn_bind, ran, ran']
  cases result with
  | error e => exact ⟨rfl, between⟩
  | ok a => exact next a after after' between

theorem Paired.tryCatch {handle handle' : ε → Work σ ε α} (tried : Paired R S x x')
    (handled : ∀ e, Paired R S (handle e) (handle' e)) :
    Paired R S (tryCatch x handle) (tryCatch x' handle') := by
  intro w w' matched
  obtain ⟨result, after, after', ran, ran', between⟩ := tried.ends matched
  rw [runOn_tryCatch, runOn_tryCatch, ran, ran']
  cases result with
  | error e => exact handled e after after' between
  | ok a => exact ⟨rfl, between⟩

theorem Paired.blaming (blame : ε → δ) (h : Paired R S x x') :
    Paired R S (blaming blame x) (blaming blame x') := by
  intro w w' matched
  obtain ⟨result, after, after', ran, ran', between⟩ := h.ends matched
  rw [runOn_blaming, runOn_blaming, ran, ran']
  cases result with
  | error e => exact ⟨rfl, between⟩
  | ok a => exact ⟨rfl, between⟩

theorem Paired.tree_bind {g g' : FileTree → Work σ ε β}
    (next : ∀ t t', R t t' → Paired R S (g t) (g' t')) :
    Paired R S (tree >>= g) (tree >>= g') := by
  intro w w' matched
  rw [runOn_bind, runOn_bind, runOn_tree, runOn_tree]
  exact next w.tree w'.tree matched.tree w w' matched

theorem Paired.change (blame : FileFailure → ε) {g g' : FileTree → Except FileFailure FileTree}
    (h : ∀ t t', R t t' → Matching R (g t) (g' t')) :
    Paired R S (change blame g) (change blame g') := by
  intro w w' matched
  have changed := h w.tree w'.tree matched.tree
  rw [runOn_change, runOn_change]
  generalize g w.tree = r at changed ⊢
  generalize g' w'.tree = r' at changed ⊢
  cases changed with
  | ok related => exact ⟨rfl, related, matched.memory⟩
  | error failure => exact ⟨rfl, matched⟩

theorem Paired.foldlM {g g' : β → α → Work σ ε β} (as : List α)
    (step : ∀ b a, Paired R S (g b a) (g' b a)) (b : β) :
    Paired R S (as.foldlM g b) (as.foldlM g' b) := by
  induction as generalizing b with
  | nil => exact .pure b
  | cons a as ih =>
    rw [List.foldlM_cons, List.foldlM_cons]
    exact (step b a).bind fun next => ih next

end Work

theorem Issuance.paired_change {g g' : FileTree → Except IssuanceError FileTree}
    (h : ∀ t t', R t t' → Matching R (g t) (g' t')) :
    Work.Paired R S (Issuance.change g : Issuance σ Unit) (Issuance.change g') := by
  intro w w' matched
  have changed := h w.tree w'.tree matched.tree
  rw [Issuance.runOn_change, Issuance.runOn_change]
  generalize g w.tree = r at changed ⊢
  generalize g' w'.tree = r' at changed ⊢
  cases changed with
  | ok related => exact ⟨rfl, related, matched.memory⟩
  | error failure => exact ⟨rfl, matched⟩

def SigningCall.withPassphrase (secret : String) : SigningCall → SigningCall
  | .key method passphrase out => .key method (passphrase.map fun _ => secret) out
  | .selfSign path passphrase subject days config out =>
    .selfSign path (passphrase.map fun _ => secret) subject days config out
  | .request path subject config out => .request path subject config out
  | .sign path authority passphrase days extensions out =>
    .sign path authority (passphrase.map fun _ => secret) days extensions out

def AuthoritySettings.withPassphrase (ca : AuthoritySettings) (secret : String) :
    AuthoritySettings :=
  { ca with passphrase := secret }

theorem AuthoritySettings.keyPassphrase_withPassphrase (ca : AuthoritySettings) (secret : String) :
    (ca.withPassphrase secret).keyPassphrase = ca.keyPassphrase.map fun _ => secret := by
  unfold keyPassphrase withPassphrase
  dsimp only
  split <;> rfl

def Signer.Paired (R : FileTree → FileTree → Prop) (S : σ → σ → Prop) (secret : String)
    (s s' : Signer σ) : Prop :=
  ∀ c, Work.Paired R S (s c) (s' (c.withPassphrase secret))

open FileTree (Respected)

variable {s s' : Signer σ} {secret : String}

theorem Issuance.paired_call (signers : Signer.Paired R S secret s s') (c : SigningCall) :
    Work.Paired R S (Issuance.call s c) (Issuance.call s' (c.withPassphrase secret)) :=
  Work.Paired.blaming IssuanceError.signing (signers c)

theorem Issuance.paired_clear (respected : Respected R) (p : Path) :
    Work.Paired R S (Issuance.clear p : Issuance σ Unit) (Issuance.clear p) :=
  paired_change fun _ _ related => respected.removeStale related p

theorem Authority.paired_bootstrap (respected : Respected R)
    (signers : Signer.Paired R S secret s s') (ca : AuthoritySettings) :
    Work.Paired R S (bootstrap s ca) (bootstrap s' (ca.withPassphrase secret)) := by
  have made := Issuance.paired_call signers (.key ca.method ca.keyPassphrase ca.files.key)
  have certified (subject : Subject) := Issuance.paired_call signers
    (.selfSign ca.files.key ca.keyPassphrase subject validityDays ca.requestConfig ca.files.cert)
  unfold bootstrap
  refine (Work.Paired.lift IssuanceError.subject _).bind fun subject => ?_
  refine (Issuance.paired_change fun _ _ same => respected.ensureDirectory same _).bind fun _ => ?_
  refine (Issuance.paired_clear respected _).bind fun _ => ?_
  refine (Issuance.paired_clear respected _).bind fun _ => ?_
  refine (Issuance.paired_clear respected _).bind fun _ => ?_
  rw [ca.keyPassphrase_withPassphrase]
  exact made.bind fun _ => (certified subject).bind fun _ => .pure _

namespace Bundle

theorem paired_clear (respected : Respected R) (files : BundleFiles) :
    Work.Paired R S (clear files : Issuance σ Unit) (clear files) := by
  unfold clear
  induction files.stale with
  | nil => exact .pure ()
  | cons p rest ih => exact (Issuance.paired_clear respected p).bind fun _ => ih

theorem paired_link (respected : Respected R) (authority : AuthorityFiles) (leaf : LeafSettings)
    (i : Identity) (files : BundleFiles) :
    Work.Paired R S (link authority leaf i files : Issuance σ Unit)
      (link authority leaf i files) := by
  unfold link
  refine .tree_bind fun t t' related => ?_
  rw [respected.cwd related]
  exact .change _ fun _ _ same => respected.makeLink same _ _

theorem paired_sign (signers : Signer.Paired R S secret s s') (ca : AuthoritySettings)
    (leaf : LeafSettings) (subject : Subject) (files : BundleFiles) :
    Work.Paired R S (sign s ca leaf subject files)
      (sign s' (ca.withPassphrase secret) leaf subject files) := by
  have made := Issuance.paired_call signers (.key ca.method none files.key)
  have requested := Issuance.paired_call signers
    (.request files.key subject ca.requestConfig files.request)
  have signed := Issuance.paired_call signers
    (.sign files.request ca.files ca.keyPassphrase validityDays leaf.extensions files.chain)
  unfold sign
  rw [ca.keyPassphrase_withPassphrase]
  exact made.bind fun _ => requested.bind fun _ => signed

theorem paired_issue (respected : Respected R) (signers : Signer.Paired R S secret s s')
    (ca : AuthoritySettings) (leaf : LeafSettings) (i : Identity) :
    Work.Paired R S (issue s ca leaf i) (issue s' (ca.withPassphrase secret) leaf i) := by
  unfold issue
  refine .tree_bind fun t t' related => ?_
  rw [respected.exists? related]
  split
  · exact .throw _
  refine (Work.Paired.lift IssuanceError.subject _).bind fun subject => ?_
  refine (paired_clear respected _).bind fun _ => ?_
  refine (paired_link respected ca.files leaf i _).bind fun _ => ?_
  refine (paired_sign signers ca leaf subject _).bind fun _ => ?_
  refine (Issuance.paired_change fun _ _ same => respected.appendFile same _ _).bind fun _ => ?_
  exact .pure _

end Bundle

def BatchSettings.withPassphrase (settings : BatchSettings) (secret : String) : BatchSettings :=
  { settings with ca := settings.ca.withPassphrase secret }

namespace Batch

theorem paired_step (respected : Respected R) (signers : Signer.Paired R S secret s s')
    (settings : BatchSettings) (r : BatchReport) (i : Identity) :
    Work.Paired R S (step s settings r i) (step s' (settings.withPassphrase secret) r i) := by
  unfold step
  refine .tryCatch ((Bundle.paired_issue respected signers _ _ i).bind fun _ => .pure _) fun e => ?_
  show Work.Paired R S (if tolerates settings.policy e then _ else _)
    (if tolerates settings.policy e then _ else _)
  split
  · exact .pure _
  · exact .throw e

theorem paired_prepare (respected : Respected R) (signers : Signer.Paired R S secret s s')
    (settings : BatchSettings) :
    Work.Paired R S (prepare s settings) (prepare s' (settings.withPassphrase secret)) := by
  unfold prepare
  show Work.Paired R S (if settings.regenerateCa then _ else _)
    (if settings.regenerateCa then _ else _)
  split
  · exact (Authority.paired_bootstrap respected signers settings.ca).bind fun _ => .pure _
  · refine .tree_bind fun t t' related => ?_
    have present : Authority.require t' (settings.ca.withPassphrase secret) =
        Authority.require t settings.ca := by
      unfold Authority.require Authority.isPresent
      rw [respected.isFile related, respected.isFile related]
      rfl
    refine Work.Paired.bind ?_ fun _ => .pure _
    show Work.Paired R S (Work.lift id (Authority.require t settings.ca))
      (Work.lift id (Authority.require t' (settings.ca.withPassphrase secret)))
    rw [present]
    exact .lift id _

theorem paired_run (respected : Respected R) (signers : Signer.Paired R S secret s s')
    (settings : BatchSettings) (topology : Topology) :
    Work.Paired R S (run s settings topology) (run s' (settings.withPassphrase secret) topology) :=
  (paired_prepare respected signers settings).bind fun _ =>
    .foldlM topology.identities (paired_step respected signers settings) _

end Batch

end NetworkCa
