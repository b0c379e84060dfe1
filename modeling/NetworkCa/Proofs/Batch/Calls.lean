import NetworkCa.Proofs.Batch.Outcome
import NetworkCa.Proofs.Signing.Tracing

namespace NetworkCa

/-- The calls that were made of those that are to be done in order, and which of them were done. Each
    is followed by the next exactly when it was done. -/
inductive InOrder : List SigningCall → List (SigningCall × Bool) → Prop where
  | done : InOrder [] []
  | failed (c : SigningCall) (cs : List SigningCall) : InOrder (c :: cs) [(c, false)]
  | next (c : SigningCall) {cs : List SigningCall} {log : List (SigningCall × Bool)}
      (later : InOrder cs log) : InOrder (c :: cs) ((c, true) :: log)

variable {σ ε α β : Type} {s : Signer σ} {cs : List SigningCall}
  {log more : List (SigningCall × Bool)}

theorem InOrder.made_prefix (h : InOrder cs log) : log.map Prod.fst <+: cs := by
  induction h with
  | done => exact List.prefix_refl _
  | failed c cs => exact ⟨cs, rfl⟩
  | next c _ ih => exact List.cons_prefix_cons.2 ⟨rfl, ih⟩

def World.logging (w : World σ) (log : List (SigningCall × Bool)) :
    World (σ × List (SigningCall × Bool)) :=
  ⟨w.tree, (w.memory, log)⟩

/-- From a world, the work `x'` does what `x` does there and logs some calls. -/
def Work.Logs (x : Work σ ε α) (x' : Work (σ × List (SigningCall × Bool)) ε α) (w : World σ)
    (calls : List (SigningCall × Bool)) : Prop :=
  ∀ log, x'.runOn (w.logging log) = ((x.runOn w).1, (x.runOn w).2.logging (log ++ calls))

namespace Work

variable {x : Work σ ε α} {x' : Work (σ × List (SigningCall × Bool)) ε α} {f : α → Work σ ε β}
  {f' : α → Work (σ × List (SigningCall × Bool)) ε β} {w after : World σ}

theorem Logs.pure (a : α) (w : World σ) : Logs (Pure.pure a : Work σ ε α) (Pure.pure a) w [] := by
  intro log
  rw [List.append_nil]
  rfl

theorem Logs.bind_ok {a : α} (first : Logs x x' w log) (ran : x.runOn w = (.ok a, after))
    (next : Logs (f a) (f' a) after more) : Logs (x >>= f) (x' >>= f') w (log ++ more) := by
  intro earlier
  have step := first earlier
  rw [ran] at step
  rw [runOn_bind_ok f ran, runOn_bind_ok f' step, next, List.append_assoc]

theorem Logs.bind_error {e : ε} (first : Logs x x' w log) (ran : x.runOn w = (.error e, after)) :
    Logs (x >>= f) (x' >>= f') w log := by
  intro earlier
  have step := first earlier
  rw [ran] at step
  rw [runOn_bind_error f ran, runOn_bind_error f' step]

end Work

open Work (Logs)

theorem Signer.logs_calls (s : Signer σ) (cs : List SigningCall) (w : World σ) :
    ∃ made, Logs (cs.forM (Issuance.call s)) (cs.forM (Issuance.call s.logged)) w made ∧
      InOrder cs made ∧
      (((cs.forM (Issuance.call s)).runOn w).1 = .ok () → made = cs.map (·, true)) := by
  induction cs generalizing w with
  | nil => exact ⟨[], .pure () w, .done, fun _ => rfl⟩
  | cons c cs ih =>
    have step (log : List (SigningCall × Bool)) : (s.logged c).runOn (w.logging log) =
        (((s c).runOn w).1, ((s c).runOn w).2.logging (log ++ [(c, ((s c).runOn w).1.toBool)])) :=
      rfl
    simp only [Logs, Bundle.runOn_forM_cons, step]
    rcases (s c).runOn w with ⟨e | _, between⟩
    · exact ⟨[(c, false)], fun _ => rfl, .failed c cs, nofun⟩
    · obtain ⟨made, logs, order, all⟩ := ih between
      refine ⟨(c, true) :: made, fun log => ?_, .next c order, fun ended => ?_⟩
      · simpa [Except.toBool] using logs (log ++ [(c, true)])
      · rw [all ended, List.map_cons]

namespace Bundle

variable {ca : AuthoritySettings} {leaf : LeafSettings} {i : Identity} {subject : Subject}

structure Ready (ca : AuthoritySettings) (leaf : LeafSettings) (i : Identity) (subject : Subject)
    (w tidy linked : World σ) : Prop where
  directory : w.tree.exists? i.dir = true
  named : Subject.forIdentity leaf.subject i = .ok subject
  cleared : (clear (.ofIdentity i)).runOn w = (.ok (), tidy)
  linked : (link ca.files leaf i (.ofIdentity i)).runOn tidy = (.ok (), linked)

theorem ready_of_prepared {w : World σ} {u : FileTree}
    (h : prepared ca.files leaf i w.tree = (.ok subject, u)) :
    ∃ tidy, Ready ca leaf i subject w tidy { w with tree := u } := by
  obtain ⟨there, named, tidy, tidied, linked⟩ := of_prepared_ok h
  refine ⟨{ w with tree := tidy }, there, named, ?_, ?_⟩
  · rw [clear, runOn_forM_clear, tidied]
  · rw [runOn_link, linked]

theorem logs_issue (s : Signer σ) (ca : AuthoritySettings) (leaf : LeafSettings) (i : Identity)
    (w : World σ) :
    ∃ made, Logs (issue s ca leaf i) (issue s.logged ca leaf i) w made ∧
      (made ≠ [] → ∃ subject tidy linked, Ready ca leaf i subject w tidy linked ∧
        InOrder (calls ca leaf subject (.ofIdentity i)) made) ∧
      (∀ files, ((issue s ca leaf i).runOn w).1 = .ok files →
        ∃ subject, made = (calls ca leaf subject (.ofIdentity i)).map (·, true)) := by
  have plain := runOn_issue s ca leaf i w
  have logged (log) := runOn_issue s.logged ca leaf i (w.logging log)
  simp only [World.logging] at logged
  rcases ready : prepared ca.files leaf i w.tree with ⟨e | subject, u⟩ <;>
    simp only [ready, runOn_sign] at plain logged
  · refine ⟨[], fun log => ?_, absurd rfl, fun files issued => ?_⟩
    · rw [plain, List.append_nil]
      exact logged log
    · rw [plain] at issued
      cases issued
  obtain ⟨made, logs, order, all⟩ :=
    s.logs_calls (calls ca leaf subject (.ofIdentity i)) { w with tree := u }
  obtain ⟨tidy, ready⟩ := ready_of_prepared ready
  refine ⟨made, fun log => ?_, fun _ => ⟨subject, tidy, _, ready, order⟩, fun files issued => ?_⟩
  · have signed := logs log
    simp only [World.logging] at signed ⊢
    rw [logged, plain, signed]
    rcases ((calls ca leaf subject (.ofIdentity i)).forM (Issuance.call s)).runOn
      { w with tree := u } with ⟨e | _, signed⟩
    · rfl
    dsimp only
    cases signed.tree.appendFile ca.files.cert (BundleFiles.ofIdentity i).chain <;> rfl
  · refine ⟨subject, all ?_⟩
    rw [plain] at issued
    rcases ran : ((calls ca leaf subject (.ofIdentity i)).forM (Issuance.call s)).runOn
      { w with tree := u } with ⟨e | _, signed⟩
    · rw [ran] at issued
      cases issued
    · rfl

end Bundle

theorem Authority.logs_bootstrap (s : Signer σ) (ca : AuthoritySettings) (w : World σ) :
    ∃ made, Logs (bootstrap s ca) (bootstrap s.logged ca) w made ∧
      (made ≠ [] → ∃ subject, Subject.parse ca.subject = .ok subject ∧
        InOrder (calls ca subject) made) ∧
      (∀ files, ((bootstrap s ca).runOn w).1 = .ok files →
        ∃ subject, made = (calls ca subject).map (·, true)) := by
  have plain := runOn_bootstrap s ca w
  have logged (log) := runOn_bootstrap s.logged ca (w.logging log)
  simp only [World.logging] at logged
  rcases ready : cleaned ca w.tree with ⟨e | subject, u⟩ <;>
    simp only [ready, runOn_found] at plain logged
  · refine ⟨[], fun log => ?_, absurd rfl, fun files founded => ?_⟩
    · rw [plain, List.append_nil]
      exact logged log
    · rw [plain] at founded
      cases founded
  obtain ⟨made, logs, order, all⟩ := s.logs_calls (calls ca subject) { w with tree := u }
  refine ⟨made, fun log => ?_, fun _ => ⟨subject, (of_cleaned_ok ready).1, order⟩,
    fun files founded => ?_⟩
  · have founded := logs log
    simp only [World.logging] at founded ⊢
    rw [logged, plain, founded]
    rcases ((calls ca subject).forM (Issuance.call s)).runOn { w with tree := u } with
      ⟨e | _, after⟩ <;> rfl
  · refine ⟨subject, all ?_⟩
    rw [plain] at founded
    rcases ran : ((calls ca subject).forM (Issuance.call s)).runOn { w with tree := u } with
      ⟨e | _, after⟩
    · rw [ran] at founded
      cases founded
    · rfl

namespace Batch

variable {settings : BatchSettings} {w start : World σ}

structure Visit (σ : Type) where
  identity : Identity
  before : World σ
  calls : List (SigningCall × Bool)
  result : Except IssuanceError BundleFiles
  after : World σ

namespace Visit

def issued (v : Visit σ) : List Identity := if v.result.toBool then [v.identity] else []

structure Orderly (s : Signer σ) (settings : BatchSettings) (v : Visit σ) : Prop where
  ran : (Bundle.issue s settings.ca settings.leaf v.identity).runOn v.before = (v.result, v.after)
  logs : Logs (Bundle.issue s settings.ca settings.leaf v.identity)
    (Bundle.issue s.logged settings.ca settings.leaf v.identity) v.before v.calls
  inOrder : v.calls ≠ [] → ∃ subject tidy linked,
    Bundle.Ready settings.ca settings.leaf v.identity subject v.before tidy linked ∧
      InOrder (Bundle.calls settings.ca settings.leaf subject (.ofIdentity v.identity)) v.calls
  complete : v.issued ≠ [] → ∃ subject, v.calls =
    (Bundle.calls settings.ca settings.leaf subject (.ofIdentity v.identity)).map (·, true)

end Visit

theorem exists_visit (s : Signer σ) (settings : BatchSettings) (i : Identity) (w : World σ) :
    ∃ v : Visit σ, v.identity = i ∧ v.before = w ∧ v.Orderly s settings := by
  obtain ⟨made, logs, order, all⟩ := Bundle.logs_issue s settings.ca settings.leaf i w
  rcases ran : (Bundle.issue s settings.ca settings.leaf i).runOn w with ⟨result, after⟩
  refine ⟨⟨i, w, made, result, after⟩, rfl, rfl, ran, logs, order, fun issued => ?_⟩
  cases result with
  | error e => cases issued rfl
  | ok files => exact all files (by rw [ran])

/-- The visits of a batch to its identities in order, each in the world that the one before it has
    left, up to the first failure that is not tolerated; and the identities that are issued, or the
    failure. -/
inductive Course (s : Signer σ) (settings : BatchSettings) :
    World σ → List Identity → List (Visit σ) → Except IssuanceError (List Identity) → Prop where
  | finished (w : World σ) : Course s settings w [] [] (.ok [])
  | passed {v : Visit σ} {rest : List Identity} {visits : List (Visit σ)}
      {outcome : Except IssuanceError (List Identity)} (orderly : v.Orderly s settings)
      (passes : ∀ e, v.result = .error e → tolerates settings.policy e = true)
      (later : Course s settings v.after rest visits outcome) :
      Course s settings v.before (v.identity :: rest) (v :: visits) (outcome.map (v.issued ++ ·))
  | stopped {v : Visit σ} {e : IssuanceError} (rest : List Identity) (orderly : v.Orderly s settings)
      (failed : v.result = .error e) (stop : tolerates settings.policy e = false) :
      Course s settings v.before (v.identity :: rest) [v] (.error e)

theorem Course.orderly {is : List Identity} {visits : List (Visit σ)}
    {outcome : Except IssuanceError (List Identity)}
    (course : Course s settings w is visits outcome) : ∀ v ∈ visits, v.Orderly s settings := by
  induction course with
  | finished => simp
  | passed orderly _ _ ih => exact List.forall_mem_cons.2 ⟨orderly, ih⟩
  | stopped _ orderly => simpa using orderly

theorem logs_step {i : Identity} (r : BatchReport)
    (logs : Logs (Bundle.issue s settings.ca settings.leaf i)
      (Bundle.issue s.logged settings.ca settings.leaf i) w log) :
    Logs (step s settings r i) (step s.logged settings r i) w log := by
  intro earlier
  rw [step, step, Work.runOn_tryCatch, Work.runOn_bind, Work.runOn_tryCatch, Work.runOn_bind,
    logs earlier]
  rcases (Bundle.issue s settings.ca settings.leaf i).runOn w with ⟨e | files, after⟩
  · dsimp only
    split <;> rfl
  · rfl

theorem issued_extend (r : BatchReport) (v : Visit σ) :
    (r.extend [⟨v.identity, v.result⟩]).issued = r.issued ++ v.issued := by
  rcases v with ⟨i, before, calls, _ | files, after⟩ <;>
    simp [BatchReport.extend, Attempt.issued?, Visit.issued, Except.toBool]

theorem exists_course (s : Signer σ) (settings : BatchSettings) (is : List Identity)
    (r : BatchReport) (w : World σ) :
    ∃ visits outcome, Course s settings w is visits outcome ∧
      Logs (is.foldlM (step s settings) r) (is.foldlM (step s.logged settings) r) w
        (visits.flatMap Visit.calls) ∧
      ((is.foldlM (step s settings) r).runOn w).1.map BatchReport.issued =
        outcome.map (r.issued ++ ·) := by
  induction is generalizing r w with
  | nil =>
    refine ⟨[], _, .finished w, .pure r w, ?_⟩
    rw [Except.map, List.append_nil]
    rfl
  | cons i rest ih =>
    obtain ⟨v, rfl, rfl, orderly⟩ := exists_visit s settings i w
    have logs := logs_step r orderly.logs
    simp only [List.foldlM_cons]
    by_cases passes : ∀ e, v.result = .error e → tolerates settings.policy e = true
    · have ran := runOn_step_of_passes s settings r v.identity orderly.ran passes
      obtain ⟨visits, outcome, course, later, issued⟩ := ih (r.extend [⟨v.identity, v.result⟩]) v.after
      refine ⟨v :: visits, _, .passed orderly passes course, ?_, ?_⟩
      · exact logs.bind_ok ran later
      · rw [Work.runOn_bind_ok _ ran, issued, issued_extend]
        cases outcome <;> simp [Except.map]
    · obtain ⟨e, failed, stop⟩ : ∃ e, v.result = .error e ∧ tolerates settings.policy e = false := by
        simpa using passes
      have ran := runOn_step_of_stop s settings r v.identity (failed ▸ orderly.ran) stop
      refine ⟨[v], _, .stopped rest orderly failed stop, ?_, ?_⟩
      · simpa using logs.bind_error ran
      · rw [Work.runOn_bind_error _ ran]
        rfl

theorem logs_prepare (s : Signer σ) (settings : BatchSettings) (w : World σ) :
    ∃ made, Logs (prepare s settings) (prepare s.logged settings) w made ∧
      (made ≠ [] → settings.regenerateCa = true ∧ ∃ subject,
        Subject.parse settings.ca.subject = .ok subject ∧
        InOrder (Authority.calls settings.ca subject) made) ∧
      (settings.regenerateCa = true → ((prepare s settings).runOn w).1 = .ok () →
        ∃ subject, made = (Authority.calls settings.ca subject).map (·, true)) := by
  unfold prepare
  by_cases anew : settings.regenerateCa = true
  · obtain ⟨made, logs, order, all⟩ := Authority.logs_bootstrap s settings.ca w
    simp only [if_pos anew]
    rcases ran : (Authority.bootstrap s settings.ca).runOn w with ⟨e | files, after⟩
    · refine ⟨made, logs.bind_error ran, fun some => ⟨anew, order some⟩, fun _ ended => ?_⟩
      rw [Work.runOn_bind_error _ ran] at ended
      cases ended
    · refine ⟨made, ?_, fun some => ⟨anew, order some⟩, fun _ _ => all files (by rw [ran])⟩
      rw [← List.append_nil made]
      exact logs.bind_ok ran (.pure () after)
  · simp only [if_neg anew]
    refine ⟨[], fun log => ?_, absurd rfl, fun anew' => absurd anew' anew⟩
    rw [List.append_nil, Work.runOn_bind, Work.runOn_bind, Work.runOn_tree, Work.runOn_tree]
    dsimp only [World.logging]
    rw [Work.runOn_bind, Work.runOn_bind]
    cases Authority.require w.tree settings.ca <;> rfl

/-- In a run of calls, each request that is signed is the one that was to be made just before, for
    the key that was to be made just before that. -/
def SignsRequests (made : List SigningCall) : Prop :=
  ∀ earlier later request authority passphrase days extensions out,
    made = earlier ++ .sign request authority passphrase days extensions out :: later →
    ∃ before method secret key subject config,
      earlier = before ++ [.key method secret key, .request key subject config request]

theorem SignsRequests.append {first second : List SigningCall} (h : SignsRequests first)
    (h' : SignsRequests second) : SignsRequests (first ++ second) := by
  intro earlier later request authority passphrase days extensions out split
  rcases List.append_eq_append_iff.1 split with ⟨middle, rfl, rest⟩ | ⟨middle, rfl, rest⟩
  · obtain ⟨before, method, secret, key, subject, config, rfl⟩ := h' _ _ _ _ _ _ _ _ rest
    exact ⟨first ++ before, method, secret, key, subject, config, by simp⟩
  cases middle with
  | cons c middle =>
    cases rest
    exact h _ _ _ _ _ _ _ _ rfl
  | nil =>
    obtain ⟨before, _, _, _, _, _, none⟩ := h' [] later _ _ _ _ _ _ rest.symm
    simp at none

theorem signsRequests_founding {ca : AuthoritySettings} {subject : Subject}
    {made : List SigningCall} (front : made <+: Authority.calls ca subject) :
    SignsRequests made := by
  rintro earlier later request authority passphrase days extensions out rfl
  have member := front.subset (List.mem_append_right earlier List.mem_cons_self)
  simp [Authority.calls] at member

theorem signsRequests_bundle {ca : AuthoritySettings} {leaf : LeafSettings} {subject : Subject}
    {files : BundleFiles} {made : List SigningCall}
    (front : made <+: Bundle.calls ca leaf subject files) : SignsRequests made := by
  rintro earlier later request authority passphrase days extensions out rfl
  obtain ⟨rest, whole⟩ := front
  rw [Bundle.calls, List.append_assoc] at whole
  -- Only the third of the calls signs a request.
  rcases earlier with _ | ⟨_, _ | ⟨_, _ | ⟨_, _⟩⟩⟩
  · cases whole
  · cases whole
  · simp only [List.cons_append, List.nil_append, List.cons.injEq, SigningCall.sign.injEq] at whole
    obtain ⟨rfl, rfl, ⟨rfl, _⟩, _⟩ := whole
    exact ⟨[], _, _, _, _, _, rfl⟩
  · have sizes := congrArg List.length whole
    simp at sizes

theorem Course.signsRequests {is : List Identity} {visits : List (Visit σ)}
    {outcome : Except IssuanceError (List Identity)}
    (course : Course s settings w is visits outcome) :
    SignsRequests ((visits.flatMap Visit.calls).map Prod.fst) := by
  have orderly := course.orderly
  clear course
  induction visits with
  | nil => simp [SignsRequests]
  | cons v visits ih =>
    obtain ⟨first, rest⟩ := List.forall_mem_cons.1 orderly
    rw [List.flatMap_cons, List.map_append]
    refine .append ?_ (ih rest)
    by_cases none : v.calls = []
    · simp [none, SignsRequests]
    · obtain ⟨subject, tidy, linked, ready, order⟩ := first.inOrder none
      exact signsRequests_bundle order.made_prefix

/-- The calls of a batch: the `founding` of its authority, and those of its visits. -/
structure Disciplined (s : Signer σ) (settings : BatchSettings) (topology : Topology)
    (w : World σ) (founding : List (SigningCall × Bool)) (visits : List (Visit σ)) : Prop where
  logs : Logs (run s settings topology) (run s.logged settings topology) w
    (founding ++ visits.flatMap Visit.calls)
  founded : founding ≠ [] → settings.regenerateCa = true ∧ ∃ subject,
    Subject.parse settings.ca.subject = .ok subject ∧
      InOrder (Authority.calls settings.ca subject) founding
  complete : settings.regenerateCa = true → visits ≠ [] →
    ∃ subject, founding = (Authority.calls settings.ca subject).map (·, true)
  course : (∃ e after, visits = [] ∧ (prepare s settings).runOn w = (.error e, after) ∧
      (run s settings topology).runOn w = (.error e, after)) ∨
    ∃ start, (prepare s settings).runOn w = (.ok (), start) ∧
      Course s settings start topology.identities visits
        (((run s settings topology).runOn w).1.map BatchReport.issued)
  signs : SignsRequests ((founding ++ visits.flatMap Visit.calls).map Prod.fst)

/-- Whatever a signer does, a batch asks it for the calls of the authority, and then for those of
    one identity after the other, each when the one before it was done. -/
theorem run_disciplined (s : Signer σ) (settings : BatchSettings) (topology : Topology)
    (w : World σ) :
    ∃ founding visits, Disciplined s settings topology w founding visits := by
  obtain ⟨founding, logs, founded, complete⟩ := logs_prepare s settings w
  have signs : SignsRequests (founding.map Prod.fst) := by
    by_cases none : founding = []
    · simp [none, SignsRequests]
    · obtain ⟨_, subject, _, order⟩ := founded none
      exact signsRequests_founding order.made_prefix
  rcases ready : (prepare s settings).runOn w with ⟨e | ⟨⟩, start⟩
  · refine ⟨founding, [], ?_, founded, fun _ => absurd rfl, .inl ⟨e, start, rfl, ready, ?_⟩, ?_⟩
    · rw [List.flatMap_nil, List.append_nil]
      exact logs.bind_error ready
    · exact Work.runOn_bind_error _ ready
    · simpa using signs
  · obtain ⟨visits, outcome, course, later, issued⟩ :=
      exists_course s settings topology.identities ⟨settings.regenerateCa, [], []⟩ start
    rw [← Work.runOn_bind_ok (fun _ => _) ready] at issued
    have same : ((run s settings topology).runOn w).1.map BatchReport.issued = outcome := by
      rw [run, issued]
      cases outcome <;> simp [Except.map]
    refine ⟨founding, visits, logs.bind_ok ready later, founded, fun anew _ => ?_,
      .inr ⟨start, ready, same ▸ course⟩, ?_⟩
    · exact complete anew (by rw [ready])
    · rw [List.map_append]
      exact signs.append course.signsRequests

end Batch

end NetworkCa
