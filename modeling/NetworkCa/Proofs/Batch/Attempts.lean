import NetworkCa.Batch.Run
import NetworkCa.Proofs.Bundle.Stages

namespace NetworkCa

structure Attempt where
  identity : Identity
  result : Except IssuanceError BundleFiles

namespace Attempt

def issued? (a : Attempt) : Option Identity :=
  match a.result with
  | .ok _ => some a.identity
  | .error _ => none

def failed? (a : Attempt) : Option FailedIdentity :=
  match a.result with
  | .ok _ => none
  | .error e => some ⟨a.identity, e.message⟩

def Passes (policy : FailurePolicy) (a : Attempt) : Prop :=
  ∀ e, a.result = .error e → Batch.tolerates policy e = true

theorem passes_iff {policy : FailurePolicy} {a : Attempt} :
    a.Passes policy ↔ (∃ files, a.result = .ok files) ∨
      (policy = .bestEffort ∧ ∃ error, a.result = .error (.signing error)) := by
  rcases a with ⟨i, _ | files⟩
  · rename_i e
    cases e <;> simp [Passes, Batch.tolerates, IssuanceError.isFatal]
  · simp [Passes]

end Attempt

namespace BatchReport

def extend (r : BatchReport) (attempts : List Attempt) : BatchReport where
  caRegenerated := r.caRegenerated
  issued := r.issued ++ attempts.filterMap Attempt.issued?
  failed := r.failed ++ attempts.filterMap Attempt.failed?

@[simp] theorem extend_nil (r : BatchReport) : r.extend [] = r := by simp [extend]

theorem extend_append (r : BatchReport) (first more : List Attempt) :
    r.extend (first ++ more) = (r.extend first).extend more := by
  simp [extend, List.filterMap_append]

end BatchReport

namespace Batch

variable {σ : Type}

def attempts (s : Signer σ) (settings : BatchSettings) :
    List Identity → World σ → List Attempt × World σ
  | [], w => ([], w)
  | i :: rest, w =>
    let (result, next) := (Bundle.issue s settings.ca settings.leaf i).runOn w
    let (later, after) := attempts s settings rest next
    (⟨i, result⟩ :: later, after)

theorem map_identity_attempts (s : Signer σ) (settings : BatchSettings) (is : List Identity)
    (w : World σ) : (attempts s settings is w).1.map Attempt.identity = is := by
  induction is generalizing w with
  | nil => rfl
  | cons i rest ih => simp [attempts, ih]

theorem passes_cons {s : Signer σ} {settings : BatchSettings} {i : Identity}
    {rest : List Identity} {w : World σ}
    (h : ∀ a ∈ (attempts s settings (i :: rest) w).1, a.Passes settings.policy) :
    Attempt.Passes settings.policy
        ⟨i, ((Bundle.issue s settings.ca settings.leaf i).runOn w).1⟩ ∧
      ∀ a ∈ (attempts s settings rest
        ((Bundle.issue s settings.ca settings.leaf i).runOn w).2).1, a.Passes settings.policy :=
  List.forall_mem_cons.1 h

theorem prepared_of_passes {s : Signer σ} {settings : BatchSettings} {i : Identity} {w : World σ}
    (passes : Attempt.Passes settings.policy
      ⟨i, ((Bundle.issue s settings.ca settings.leaf i).runOn w).1⟩) :
    ∃ subject u, Bundle.prepared settings.ca.files settings.leaf i w.tree = (.ok subject, u) := by
  rcases ready : Bundle.prepared settings.ca.files settings.leaf i w.tree with ⟨e | subject, u⟩
  · have tolerated := passes e (by rw [Bundle.runOn_issue, ready])
    simp [tolerates, Bundle.prepared_isFatal ready] at tolerated
  · exact ⟨subject, u, rfl⟩

theorem runOn_step_of_passes (s : Signer σ) (settings : BatchSettings) (r : BatchReport)
    (i : Identity) {w after : World σ} {result : Except IssuanceError BundleFiles}
    (h : (Bundle.issue s settings.ca settings.leaf i).runOn w = (result, after))
    (passes : Attempt.Passes settings.policy ⟨i, result⟩) :
    (step s settings r i).runOn w = (.ok (r.extend [⟨i, result⟩]), after) := by
  rw [step, Work.runOn_tryCatch, Work.runOn_bind, h]
  cases result with
  | ok files => simp [BatchReport.extend, Attempt.issued?, Attempt.failed?]
  | error e =>
    have tolerated := passes e rfl
    simp [tolerated, BatchReport.extend, Attempt.issued?, Attempt.failed?]

theorem runOn_step_of_stop (s : Signer σ) (settings : BatchSettings) (r : BatchReport)
    (i : Identity) {w after : World σ} {e : IssuanceError}
    (h : (Bundle.issue s settings.ca settings.leaf i).runOn w = (.error e, after))
    (stop : tolerates settings.policy e = false) :
    (step s settings r i).runOn w = (.error e, after) := by
  rw [step, Work.runOn_tryCatch, Work.runOn_bind, h]
  simp [stop]

theorem runOn_steps (s : Signer σ) (settings : BatchSettings) {done : List Identity}
    (rest : List Identity) (r : BatchReport) (w : World σ)
    (passes : ∀ a ∈ (attempts s settings done w).1, a.Passes settings.policy) :
    ((done ++ rest).foldlM (step s settings) r).runOn w =
      (rest.foldlM (step s settings) (r.extend (attempts s settings done w).1)).runOn
        (attempts s settings done w).2 := by
  induction done generalizing r w with
  | nil => simp [attempts]
  | cons i more ih =>
    rcases h : (Bundle.issue s settings.ca settings.leaf i).runOn w with ⟨result, next⟩
    have first : Attempt.Passes settings.policy ⟨i, result⟩ := by
      apply passes
      simp [attempts, h]
    have later : ∀ a ∈ (attempts s settings more next).1, a.Passes settings.policy := by
      intro a ha
      apply passes
      simp [attempts, h, ha]
    have shape : attempts s settings (i :: more) w =
        ([⟨i, result⟩] ++ (attempts s settings more next).1, (attempts s settings more next).2) := by
      simp [attempts, h]
    rw [List.cons_append, List.foldlM_cons,
      Work.runOn_bind_ok _ (runOn_step_of_passes s settings r i h first), ih _ _ later, shape,
      BatchReport.extend_append]

theorem runOn_steps_of_stop (s : Signer σ) (settings : BatchSettings) {done : List Identity}
    {i : Identity} (rest : List Identity) (r : BatchReport) (w : World σ) {after : World σ}
    {e : IssuanceError}
    (passes : ∀ a ∈ (attempts s settings done w).1, a.Passes settings.policy)
    (stop : (Bundle.issue s settings.ca settings.leaf i).runOn (attempts s settings done w).2 =
      (.error e, after)) (fatal : tolerates settings.policy e = false) :
    ((done ++ i :: rest).foldlM (step s settings) r).runOn w = (.error e, after) := by
  rw [runOn_steps s settings (i :: rest) r w passes, List.foldlM_cons]
  exact Work.runOn_bind_error _ (runOn_step_of_stop s settings _ i stop fatal)

theorem all_pass_or_stop (s : Signer σ) (settings : BatchSettings) (is : List Identity)
    (w : World σ) :
    (∀ a ∈ (attempts s settings is w).1, a.Passes settings.policy) ∨
      ∃ done i rest e after, is = done ++ i :: rest ∧
        (∀ a ∈ (attempts s settings done w).1, a.Passes settings.policy) ∧
        (Bundle.issue s settings.ca settings.leaf i).runOn (attempts s settings done w).2 =
          (.error e, after) ∧
        tolerates settings.policy e = false := by
  induction is generalizing w with
  | nil => simp [attempts]
  | cons i rest ih =>
    rcases h : (Bundle.issue s settings.ca settings.leaf i).runOn w with ⟨result, next⟩
    by_cases first : Attempt.Passes settings.policy ⟨i, result⟩
    · rcases ih next with all | ⟨done, j, later, e, after, rfl, passes, stop, fatal⟩
      · left
        simpa [attempts, h, first] using all
      · right
        refine ⟨i :: done, j, later, e, after, rfl, ?_, ?_, fatal⟩
        · simpa [attempts, h, first] using passes
        · simpa [attempts, h] using stop
    · right
      obtain ⟨e, rfl, fatal⟩ : ∃ e, result = .error e ∧ tolerates settings.policy e = false := by
        simpa [Attempt.Passes] using first
      exact ⟨[], i, rest, e, next, rfl, by simp [attempts], h, fatal⟩

end Batch

end NetworkCa
