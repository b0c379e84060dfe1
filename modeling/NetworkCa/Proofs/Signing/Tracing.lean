import NetworkCa.Batch.Run
import NetworkCa.Proofs.Bundle.Aftermath
import NetworkCa.Signing.Recording

namespace NetworkCa

variable {σ : Type} (s : Signer σ)

namespace Signer

theorem traced_call (c : SigningCall) (w : World (σ × List SigningCall)) :
    ((traced s c).runOn w).2.memory.2 = w.memory.2 ++ [c] := rfl

theorem traced_calls (cs : List SigningCall) (w : World (σ × List SigningCall)) :
    ∃ made, made <+: cs ∧
      ((cs.forM (Issuance.call (traced s))).runOn w).2.memory.2 = w.memory.2 ++ made := by
  induction cs generalizing w with
  | nil => exact ⟨[], List.prefix_refl _, (List.append_nil _).symm⟩
  | cons c cs ih =>
    have first := s.traced_call c w
    rw [Bundle.runOn_forM_cons]
    rcases ran : (traced s c).runOn w with ⟨e | _, after⟩ <;> rw [ran] at first
    · exact ⟨[c], by simp, first⟩
    · obtain ⟨made, front, calls⟩ := ih after
      refine ⟨c :: made, List.cons_prefix_cons.2 ⟨rfl, front⟩, ?_⟩
      dsimp only at first ⊢
      rw [calls, first, List.append_assoc]
      rfl

end Signer

def Authority.calls (ca : AuthoritySettings) (subject : Subject) : List SigningCall :=
  [.key ca.method ca.keyPassphrase ca.files.key,
    .selfSign ca.files.key ca.keyPassphrase subject validityDays ca.requestConfig ca.files.cert]

theorem Authority.runOn_found (ca : AuthoritySettings) (subject : Subject) (w : World σ) :
    (found s ca subject).runOn w = ((calls ca subject).forM (Issuance.call s)).runOn w := by
  rw [found, calls, Bundle.runOn_forM_cons, Work.runOn_bind, Issuance.runOn_call]
  rcases (s (.key ca.method ca.keyPassphrase ca.files.key)).runOn w with ⟨e | _, keyed⟩
  · rfl
  dsimp only
  rw [Bundle.runOn_forM_cons, Issuance.runOn_call]
  rcases (s _).runOn keyed with ⟨e | _, certified⟩ <;> rfl

theorem Authority.bootstrap_calls (ca : AuthoritySettings) (w : World (σ × List SigningCall)) :
    ∃ subject made, made <+: calls ca subject ∧
      ((bootstrap s.traced ca).runOn w).2.memory.2 = w.memory.2 ++ made := by
  rw [runOn_bootstrap]
  rcases cleaned ca w.tree with ⟨e | subject, t⟩
  · exact ⟨⟨[]⟩, [], List.nil_prefix, (List.append_nil _).symm⟩
  dsimp only
  obtain ⟨made, front, calls⟩ := s.traced_calls (calls ca subject) ⟨t, w.memory⟩
  rw [← runOn_found] at calls
  refine ⟨subject, made, front, ?_⟩
  rcases ran : (found s.traced ca subject).runOn ⟨t, w.memory⟩ with ⟨e | _, after⟩ <;>
    rw [ran] at calls <;> exact calls

theorem Bundle.issue_calls (ca : AuthoritySettings) (leaf : LeafSettings) (i : Identity)
    (w : World (σ × List SigningCall)) :
    ∃ subject made, made <+: calls ca leaf subject (.ofIdentity i) ∧
      ((issue s.traced ca leaf i).runOn w).2.memory.2 = w.memory.2 ++ made := by
  rw [runOn_issue]
  rcases prepared ca.files leaf i w.tree with ⟨e | subject, t⟩
  · exact ⟨⟨[]⟩, [], List.nil_prefix, (List.append_nil _).symm⟩
  dsimp only
  obtain ⟨made, front, calls⟩ :=
    s.traced_calls (calls ca leaf subject (.ofIdentity i)) ⟨t, w.memory⟩
  rw [← runOn_sign] at calls
  refine ⟨subject, made, front, ?_⟩
  rcases ran : (sign s.traced ca leaf subject (.ofIdentity i)).runOn ⟨t, w.memory⟩ with
    ⟨e | _, signed⟩ <;> rw [ran] at calls
  · exact calls
  dsimp only at calls ⊢
  cases signed.tree.appendFile ca.files.cert (BundleFiles.ofIdentity i).chain <;> exact calls

namespace Batch

theorem step_calls (settings : BatchSettings) (r : BatchReport) (i : Identity)
    (w : World (σ × List SigningCall)) :
    ∃ subject made, made <+: Bundle.calls settings.ca settings.leaf subject (.ofIdentity i) ∧
      ((step s.traced settings r i).runOn w).2.memory.2 = w.memory.2 ++ made := by
  obtain ⟨subject, made, front, calls⟩ := Bundle.issue_calls s settings.ca settings.leaf i w
  refine ⟨subject, made, front, ?_⟩
  rw [step, Work.runOn_tryCatch, Work.runOn_bind]
  rcases ran : (Bundle.issue s.traced settings.ca settings.leaf i).runOn w with
    ⟨e | files, after⟩ <;> rw [ran] at calls
  · dsimp only
    split <;> exact calls
  · exact calls

theorem steps_calls (settings : BatchSettings) (is : List Identity) (r : BatchReport)
    (w : World (σ × List SigningCall)) :
    ∃ bundles : List (List SigningCall),
      (∀ made ∈ bundles, ∃ i ∈ is, ∃ subject,
        made <+: Bundle.calls settings.ca settings.leaf subject (.ofIdentity i)) ∧
      ((is.foldlM (step s.traced settings) r).runOn w).2.memory.2 =
        w.memory.2 ++ bundles.flatten := by
  induction is generalizing r w with
  | nil => exact ⟨[], by simp, (List.append_nil _).symm⟩
  | cons i is ih =>
    obtain ⟨subject, made, front, calls⟩ := step_calls s settings r i w
    rw [List.foldlM_cons, Work.runOn_bind]
    rcases ran : (step s.traced settings r i).runOn w with ⟨e | r', after⟩ <;> rw [ran] at calls
    · refine ⟨[made], ?_, by simpa using calls⟩
      simpa using .inl ⟨subject, front⟩
    · obtain ⟨bundles, each, later⟩ := ih r' after
      refine ⟨made :: bundles, ?_, ?_⟩
      · rw [List.forall_mem_cons]
        refine ⟨⟨i, by simp, subject, front⟩, fun calls member => ?_⟩
        obtain ⟨j, hj, found⟩ := each calls member
        exact ⟨j, List.mem_cons_of_mem i hj, found⟩
      · dsimp only at calls ⊢
        rw [later, calls, List.flatten_cons, List.append_assoc]

theorem prepare_calls (settings : BatchSettings) (w : World (σ × List SigningCall)) :
    ∃ subject made, made <+: Authority.calls settings.ca subject ∧
      ((prepare s.traced settings).runOn w).2.memory.2 = w.memory.2 ++ made ∧
      (settings.regenerateCa = false → made = []) := by
  unfold prepare
  by_cases anew : settings.regenerateCa = true
  · obtain ⟨subject, made, front, calls⟩ := Authority.bootstrap_calls s settings.ca w
    refine ⟨subject, made, front, ?_, fun kept => absurd anew (by simp [kept])⟩
    rw [if_pos anew, Work.runOn_bind]
    rcases ran : (Authority.bootstrap s.traced settings.ca).runOn w with ⟨e | files, after⟩ <;>
      rw [ran] at calls <;> exact calls
  · refine ⟨⟨[]⟩, [], List.nil_prefix, ?_, fun _ => rfl⟩
    rw [if_neg anew, Work.runOn_bind, Work.runOn_tree, List.append_nil]
    dsimp only
    rw [Work.runOn_bind]
    cases Authority.require w.tree settings.ca <;> rfl

theorem run_calls (settings : BatchSettings) (topology : Topology)
    (w : World (σ × List SigningCall)) :
    ∃ (founding : List SigningCall) (bundles : List (List SigningCall)),
      ((run s.traced settings topology).runOn w).2.memory.2 =
        w.memory.2 ++ (founding ++ bundles.flatten) ∧
      (settings.regenerateCa = false → founding = []) ∧
      (∃ subject, founding <+: Authority.calls settings.ca subject) ∧
      ∀ made ∈ bundles, ∃ i ∈ topology.identities, ∃ subject,
        made <+: Bundle.calls settings.ca settings.leaf subject (.ofIdentity i) := by
  obtain ⟨subject, founding, front, calls, kept⟩ := prepare_calls s settings w
  rw [run, Work.runOn_bind]
  rcases ran : (prepare s.traced settings).runOn w with ⟨e | _, after⟩ <;> rw [ran] at calls
  · exact ⟨founding, [], by simpa using calls, kept, ⟨subject, front⟩, by simp⟩
  · obtain ⟨bundles, each, later⟩ :=
      steps_calls s settings topology.identities ⟨settings.regenerateCa, [], []⟩ after
    refine ⟨founding, bundles, ?_, kept, ⟨subject, front⟩, each⟩
    dsimp only at calls ⊢
    rw [later, calls, List.append_assoc]

end Batch

end NetworkCa
