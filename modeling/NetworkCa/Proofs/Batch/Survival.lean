import NetworkCa.Proofs.Batch.Outcome
import NetworkCa.Proofs.Bundle.Survival

namespace NetworkCa.Batch

open NetworkCa.Bundle (Complete SameBundle Spares Renews)

variable {σ : Type} {s : Signer σ} {settings : BatchSettings} {topology : Topology}
  {w start after : World σ} {report : BatchReport} {done rest : List Identity} {i : Identity}

def EachInTurn (s : Signer σ) (settings : BatchSettings) (P : Identity → World σ → Prop) :
    List Identity → World σ → Prop
  | [], _ => True
  | j :: rest, w => P j w ∧
    EachInTurn s settings P rest ((Bundle.issue s settings.ca settings.leaf j).runOn w).2

theorem attempts_cons (s : Signer σ) (settings : BatchSettings) (i : Identity)
    (rest : List Identity) (w : World σ) :
    (attempts s settings (i :: rest) w).2 =
      (attempts s settings rest ((Bundle.issue s settings.ca settings.leaf i).runOn w).2).2 := rfl

theorem attempts_append (s : Signer σ) (settings : BatchSettings) (done rest : List Identity)
    (w : World σ) :
    (attempts s settings (done ++ rest) w).2 =
      (attempts s settings rest (attempts s settings done w).2).2 := by
  induction done generalizing w with
  | nil => rfl
  | cons i more ih => rw [List.cons_append, attempts_cons, ih, attempts_cons]

theorem EachInTurn.attempts {P : Identity → World σ → Prop} {Q : World σ → Prop}
    (step : ∀ j w, P j w → Q w → Q ((Bundle.issue s settings.ca settings.leaf j).runOn w).2)
    (each : EachInTurn s settings P rest w) (h : Q w) : Q (attempts s settings rest w).2 := by
  induction rest generalizing w with
  | nil => exact h
  | cons j rest ih => exact ih each.2 (step j w each.1 h)

theorem turn_of_issued {is : List Identity}
    (h : i ∈ (attempts s settings is w).1.filterMap Attempt.issued?) :
    ∃ done rest files issued, is = done ++ i :: rest ∧
      (Bundle.issue s settings.ca settings.leaf i).runOn (attempts s settings done w).2 =
        (.ok files, issued) := by
  induction is generalizing w with
  | nil => simp [Batch.attempts] at h
  | cons j is ih =>
    rcases ran : (Bundle.issue s settings.ca settings.leaf j).runOn w with ⟨result, next⟩
    have later (h : i ∈ (attempts s settings is next).1.filterMap Attempt.issued?) :
        ∃ done rest files issued, j :: is = done ++ i :: rest ∧
          (Bundle.issue s settings.ca settings.leaf i).runOn (attempts s settings done w).2 =
            (.ok files, issued) := by
      obtain ⟨done, rest, files, issued, rfl, ran'⟩ := ih h
      refine ⟨j :: done, rest, files, issued, rfl, ?_⟩
      rw [attempts_cons, ran]
      exact ran'
    rcases result with e | files <;>
      simp only [Batch.attempts, ran, List.filterMap_cons, Attempt.issued?] at h
    · exact later h
    · rcases List.mem_cons.1 h with rfl | h
      · exact ⟨[], is, files, next, rfl, ran⟩
      · exact later h

def IssuedBefore (s : Signer σ) (settings : BatchSettings) (topology : Topology) (start : World σ)
    (i : Identity) (rest : List Identity) (issued : World σ) : Prop :=
  ∃ done files, topology.identities = done ++ i :: rest ∧
    (Bundle.issue s settings.ca settings.leaf i).runOn (attempts s settings done start).2 =
      (.ok files, issued)

/-- What becomes of a bundle that was just issued while the identities `rest` are tried. -/
structure Lasts (s : Signer σ) (settings : BatchSettings) (i : Identity) (rest : List Identity)
    (issued after : World σ) : Prop where
  atFirst : Complete settings.ca.files (.ofIdentity i) issued.tree
  atLast : EachInTurn s settings (fun j w =>
      Spares settings.ca.files settings.leaf j (.ofIdentity i) w.tree ∨
        Renews s settings.ca settings.leaf j i w) rest issued →
    Complete settings.ca.files (.ofIdentity i) after.tree
  unaltered : EachInTurn s settings (fun j w =>
      Spares settings.ca.files settings.leaf j (.ofIdentity i) w.tree) rest issued →
    SameBundle settings.ca.files (.ofIdentity i) issued.tree after.tree

theorem lasts_of_issued {files : BundleFiles} {issued : World σ}
    (signer : s.Creates settings.ca.files.serial)
    (ran : (Bundle.issue s settings.ca settings.leaf i).runOn w = (.ok files, issued))
    (rest : List Identity) :
    Lasts s settings i rest issued (attempts s settings rest issued).2 := by
  obtain ⟨_, _, rfl, _⟩ := Bundle.of_issue_ok ran
  have complete := Bundle.issue_complete signer ran
  refine ⟨complete, fun each => ?_, fun each => ?_⟩
  · refine each.attempts (Q := fun w => Complete settings.ca.files (.ofIdentity i) w.tree) ?_
      complete
    rintro j w (spares | renews) complete
    · exact complete.of_sameBundle (spares.sameBundle complete signer.makesAnew)
    · exact renews.complete signer
  · refine each.attempts
      (Q := fun w => SameBundle settings.ca.files (.ofIdentity i) issued.tree w.tree) ?_
      complete.sameBundle
    intro j w spares same
    exact same.trans (spares.sameBundle (complete.of_sameBundle same) signer.makesAnew)

/-- Every identity in the report of a batch was issued with a complete bundle, and the bundle lasts
    to the end of the batch as long as every later identity spares it or makes it again. -/
theorem run_keeps_bundles (signer : s.Creates settings.ca.files.serial)
    (ran : (run s settings topology).runOn w = (.ok report, after)) :
    ∃ start, (prepare s settings).runOn w = (.ok (), start) ∧
      (∀ i ∈ report.issued, ∃ rest issued, IssuedBefore s settings topology start i rest issued) ∧
      ∀ i rest issued, IssuedBefore s settings topology start i rest issued →
        Lasts s settings i rest issued after := by
  obtain ⟨start, ready, _, rfl, rfl⟩ := of_run_ok ran
  refine ⟨start, ready, fun i hi => ?_, ?_⟩
  · obtain ⟨done, rest, files, issued, split, ran⟩ :=
      turn_of_issued (by simpa [BatchReport.extend] using hi)
    exact ⟨rest, issued, done, files, split, ran⟩
  · rintro i rest issued ⟨done, files, split, ran⟩
    rw [split, attempts_append, attempts_cons, ran]
    exact lasts_of_issued signer ran rest

namespace Sample

def batch : BatchSettings where
  ca := Bundle.Sample.authority
  leaf := Bundle.Sample.settings
  regenerateCa := false
  policy := .bestEffort

def peer : Identity := .make .peer Bundle.Sample.client.dir none none

/-- A peer whose former certificate would have the name of the client's link. -/
def usurper : Identity :=
  .make .peer Bundle.Sample.client.dir (some "CA") (some "peer-CA.pem")

def issued : World Unit :=
  ((Bundle.issue Bundle.Sample.signer batch.ca batch.leaf Bundle.Sample.client).runOn
    ⟨Bundle.Sample.tree, ()⟩).2

end Sample

/-- Two bundles in one directory last to the end when all that they share is the link. -/
theorem run_keeps_bundles_of_two :
    Bundle.Sample.signer.Creates Sample.batch.ca.files.serial ∧
      ∃ report after, (run Bundle.Sample.signer Sample.batch
          ⟨[Bundle.Sample.client, Sample.peer]⟩).runOn ⟨Bundle.Sample.tree, ()⟩ =
            (.ok report, after) ∧
        report.issued = [Bundle.Sample.client, Sample.peer] ∧
        Complete Sample.batch.ca.files (.ofIdentity Bundle.Sample.client) after.tree := by
  have signer : Bundle.Sample.signer.Creates Sample.batch.ca.files.serial :=
    Signer.stamping_creates _ _ _
  let report : BatchReport := ⟨false, [Bundle.Sample.client, Sample.peer], []⟩
  have ran : (run Bundle.Sample.signer Sample.batch
      ⟨[Bundle.Sample.client, Sample.peer]⟩).runOn ⟨Bundle.Sample.tree, ()⟩ = (.ok report, _) :=
    Prod.ext (eq_ok_of_toOption (by decide +kernel)) rfl
  obtain ⟨start, ready, _, lasts⟩ := run_keeps_bundles signer ran
  have outset : start = ⟨Bundle.Sample.tree, ()⟩ := by
    exact (congrArg Prod.snd ready).symm
  subst outset
  have first := lasts Bundle.Sample.client [Sample.peer] Sample.issued
    ⟨[], .ofIdentity Bundle.Sample.client, rfl,
      Prod.ext (eq_ok_of_toOption (by decide +kernel)) rfl⟩
  exact ⟨signer, report, _, ran, rfl, first.atLast ⟨.inl (by decide +kernel), trivial⟩⟩

/-- In the other order both bundles last, in this one the client loses its link. -/
example :
    ¬ Spares Sample.batch.ca.files Sample.batch.leaf Sample.usurper
      (.ofIdentity Bundle.Sample.client) Sample.issued.tree := by
  decide +kernel

end NetworkCa.Batch
