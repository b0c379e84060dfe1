import NetworkCa.Cli.Run
import NetworkCa.Proofs.Batch.Attempts

namespace NetworkCa

theorem length_issued_add_length_failed (tried : List Attempt) :
    (tried.filterMap Attempt.issued?).length + (tried.filterMap Attempt.failed?).length =
      tried.length := by
  induction tried with
  | nil => rfl
  | cons a more ih =>
    rcases a with ⟨i, _ | files⟩
    · simp [List.filterMap_cons, Attempt.issued?, Attempt.failed?]
      omega
    · simp [List.filterMap_cons, Attempt.issued?, Attempt.failed?]
      omega

theorem failed_eq_nil_iff (tried : List Attempt) :
    tried.filterMap Attempt.failed? = [] ↔
      tried.filterMap Attempt.issued? = tried.map Attempt.identity := by
  constructor
  · intro none
    induction tried with
    | nil => rfl
    | cons a more ih =>
      rcases a with ⟨i, _ | files⟩
      · simp [Attempt.failed?] at none
      · have rest := ih (by simpa [List.filterMap_cons, Attempt.failed?] using none)
        simpa [List.filterMap_cons, Attempt.issued?] using rest
  · intro all
    have total := length_issued_add_length_failed tried
    rw [all, List.length_map] at total
    exact List.length_eq_zero_iff.mp (by omega)

namespace Batch

variable {σ : Type}

/-- A batch that reached the end of its topology. Its report has each identity that was `tried` in
    one of two lists, in the order of the topology. -/
structure Completed (s : Signer σ) (settings : BatchSettings) (topology : Topology) (w : World σ)
    (tried : List Attempt) (report : BatchReport) (after : World σ) : Prop where
  attempted : ∃ start, (prepare s settings).runOn w = (.ok (), start) ∧
    attempts s settings topology.identities start = (tried, after)
  identities : tried.map Attempt.identity = topology.identities
  issued : report.issued = tried.filterMap Attempt.issued?
  failed : report.failed = tried.filterMap Attempt.failed?
  strict : settings.policy = .strict → report.failed = []
  exit : (Cli.resultOf Cli.batchResult (run s settings topology) w).1.exit = Cli.success ↔
    report.issued = topology.identities

/-- A batch whose authority could not be set up or was not there. No identity was touched. -/
structure Unprepared (s : Signer σ) (settings : BatchSettings) (w : World σ) (e : IssuanceError)
    (after : World σ) : Prop where
  prepared : (prepare s settings).runOn w = (.error e, after)
  any_topology : ∀ topology, (run s settings topology).runOn w = (.error e, after)

/-- A batch that stopped at the identity `i`, after the identities `done`. -/
structure Stopped (s : Signer σ) (settings : BatchSettings) (w : World σ) (done : List Identity)
    (i : Identity) (e : IssuanceError) (after : World σ) : Prop where
  attempted : ∃ start, (prepare s settings).runOn w = (.ok (), start) ∧
    (∀ a ∈ (attempts s settings done start).1, (∃ files, a.result = .ok files) ∨
      (settings.policy = .bestEffort ∧ ∃ error, a.result = .error (.signing error))) ∧
    (Bundle.issue s settings.ca settings.leaf i).runOn (attempts s settings done start).2 =
      (.error e, after)
  reason : e.isFatal = true ∨ settings.policy = .strict
  any_rest : ∀ rest, (run s settings ⟨done ++ i :: rest⟩).runOn w = (.error e, after)

theorem completed_of_passes (s : Signer σ) (settings : BatchSettings) (topology : Topology)
    {w start : World σ} (prepared : (prepare s settings).runOn w = (.ok (), start))
    (passes : ∀ a ∈ (attempts s settings topology.identities start).1, a.Passes settings.policy) :
    ∃ report, (run s settings topology).runOn w =
        (.ok report, (attempts s settings topology.identities start).2) ∧
      Completed s settings topology w (attempts s settings topology.identities start).1 report
        (attempts s settings topology.identities start).2 := by
  let tried := (attempts s settings topology.identities start).1
  let report : BatchReport := ⟨settings.regenerateCa, tried.filterMap Attempt.issued?,
    tried.filterMap Attempt.failed?⟩
  have identities : tried.map Attempt.identity = topology.identities :=
    map_identity_attempts s settings _ start
  have ran : (run s settings topology).runOn w =
      (.ok report, (attempts s settings topology.identities start).2) := by
    rw [run, Work.runOn_bind_ok _ prepared]
    simpa [BatchReport.extend] using
      runOn_steps s settings [] ⟨settings.regenerateCa, [], []⟩ start passes
  refine ⟨report, ran, ⟨start, prepared, rfl⟩, identities, rfl, rfl, ?_, ?_⟩
  · intro strict
    apply List.filterMap_eq_nil_iff.mpr
    intro a ha
    rcases Attempt.passes_iff.mp (passes a ha) with ⟨files, ok⟩ | ⟨bestEffort, _⟩
    · rw [Attempt.failed?, ok]
    · rw [strict] at bestEffort
      cases bestEffort
  · rw [← identities]
    refine Iff.trans ?_ (failed_eq_nil_iff tried)
    rw [Cli.resultOf, ran]
    by_cases none : tried.filterMap Attempt.failed? = []
    · simp [Cli.batchResult, BatchReport.isSuccess, report, none]
    · simp [Cli.batchResult, BatchReport.isSuccess, report, none, Cli.success, Cli.failed]

theorem stopped_of_error (s : Signer σ) (settings : BatchSettings) {w start : World σ}
    (prepared : (prepare s settings).runOn w = (.ok (), start)) {done : List Identity}
    {i : Identity} {e : IssuanceError} {after : World σ}
    (passes : ∀ a ∈ (attempts s settings done start).1, a.Passes settings.policy)
    (stop : (Bundle.issue s settings.ca settings.leaf i).runOn (attempts s settings done start).2 =
      (.error e, after))
    (fatal : tolerates settings.policy e = false) : Stopped s settings w done i e after := by
  refine ⟨⟨start, prepared, fun a ha => Attempt.passes_iff.mp (passes a ha), stop⟩, ?_, ?_⟩
  · cases h : settings.policy <;> simp_all [tolerates]
  · intro rest
    rw [run, Work.runOn_bind_ok _ prepared]
    exact runOn_steps_of_stop s settings rest _ start passes stop fatal

theorem prepare_of_bootstrap {s : Signer σ} {settings : BatchSettings} {w start : World σ}
    {files : AuthorityFiles} (anew : settings.regenerateCa = true)
    (made : (Authority.bootstrap s settings.ca).runOn w = (.ok files, start)) :
    (prepare s settings).runOn w = (.ok (), start) := by
  unfold prepare
  rw [if_pos anew, Work.runOn_bind_ok _ made]
  rfl

theorem of_prepare_ok {s : Signer σ} {settings : BatchSettings} {w start : World σ}
    (h : (prepare s settings).runOn w = (.ok (), start)) :
    (∃ files, (Authority.bootstrap s settings.ca).runOn w = (.ok files, start)) ∨
      settings.regenerateCa = false ∧ start = w := by
  unfold prepare at h
  by_cases anew : settings.regenerateCa = true
  · rw [if_pos anew] at h
    obtain ⟨files, between, made, done⟩ := Work.of_runOn_bind_ok h
    cases done
    exact .inl ⟨files, made⟩
  · rw [if_neg anew] at h
    obtain ⟨t, between, seen, h⟩ := Work.of_runOn_bind_ok h
    cases seen
    obtain ⟨files, after, required, done⟩ := Work.of_runOn_bind_ok h
    cases done
    refine .inr ⟨by simpa using anew, ?_⟩
    rcases found : Authority.require w.tree settings.ca with e | files' <;> rw [found] at required
    · cases required
    · cases required
      rfl

theorem run_of_passes {s : Signer σ} {settings : BatchSettings} {topology : Topology}
    {w start : World σ} (ready : (prepare s settings).runOn w = (.ok (), start))
    (passes : ∀ a ∈ (attempts s settings topology.identities start).1, a.Passes settings.policy) :
    (run s settings topology).runOn w = (.ok (.extend ⟨settings.regenerateCa, [], []⟩
      (attempts s settings topology.identities start).1),
        (attempts s settings topology.identities start).2) := by
  have steps := runOn_steps s settings [] ⟨settings.regenerateCa, [], []⟩ start passes
  rw [List.append_nil] at steps
  rw [run, Work.runOn_bind_ok _ ready, steps]
  rfl

theorem of_run_ok {s : Signer σ} {settings : BatchSettings} {topology : Topology}
    {w after : World σ} {report : BatchReport}
    (ran : (run s settings topology).runOn w = (.ok report, after)) :
    ∃ start, (prepare s settings).runOn w = (.ok (), start) ∧
      (∀ a ∈ (attempts s settings topology.identities start).1, a.Passes settings.policy) ∧
      report = .extend ⟨settings.regenerateCa, [], []⟩
        (attempts s settings topology.identities start).1 ∧
      after = (attempts s settings topology.identities start).2 := by
  rcases prepared : (prepare s settings).runOn w with ⟨e | ⟨⟩, start⟩
  · rw [run, Work.runOn_bind_error _ prepared] at ran
    cases ran
  rw [run, Work.runOn_bind_ok _ prepared] at ran
  rcases all_pass_or_stop s settings topology.identities start with
    passes | ⟨done, i, rest, e, after', split, passes, stop, fatal⟩
  · have steps := runOn_steps s settings [] ⟨settings.regenerateCa, [], []⟩ start passes
    rw [List.append_nil, ran] at steps
    cases steps
    exact ⟨start, rfl, passes, rfl, rfl⟩
  · rw [split, runOn_steps_of_stop s settings rest _ start passes stop fatal] at ran
    cases ran

/-- A batch completes with a report of every identity, or has no authority, or stops at the first
    identity whose failure it may not pass over, as if that were its last. What a signer remembers
    of its calls is a part of the world after it. -/
theorem run_outcome (s : Signer σ) (settings : BatchSettings) (topology : Topology)
    (w : World σ) :
    match (run s settings topology).runOn w with
    | (.ok report, after) => ∃ tried, Completed s settings topology w tried report after
    | (.error e, after) => Unprepared s settings w e after ∨
        ∃ done i rest, topology.identities = done ++ i :: rest ∧
          Stopped s settings w done i e after := by
  rcases prepared : (prepare s settings).runOn w with ⟨e | ⟨⟩, start⟩
  · have ended : ∀ t, (run s settings t).runOn w = (.error e, start) := by
      intro t
      rw [run, Work.runOn_bind_error _ prepared]
    rw [ended topology]
    exact .inl ⟨prepared, ended⟩
  · rcases all_pass_or_stop s settings topology.identities start with
      passes | ⟨done, i, rest, e, after, split, passes, stop, fatal⟩
    · obtain ⟨report, ran, completed⟩ := completed_of_passes s settings topology prepared passes
      rw [ran]
      exact ⟨_, completed⟩
    · have stopped := stopped_of_error s settings prepared passes stop fatal
      rw [show topology = ⟨done ++ i :: rest⟩ from congrArg Topology.mk split, stopped.any_rest]
      exact .inr ⟨done, i, rest, rfl, stopped⟩

namespace Sample

def renewing : BatchSettings where
  ca := Bundle.Sample.authority
  leaf := Bundle.Sample.settings
  regenerateCa := true
  policy := .bestEffort

end Sample

end Batch

end NetworkCa
