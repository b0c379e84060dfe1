import NetworkCa.Proofs.Authority.Founding
import NetworkCa.Proofs.Batch.Outcome
import NetworkCa.Proofs.Bundle.Overlay

namespace NetworkCa

open NetworkCa.Bundle (Distinct Issuable Overlaid sites)
open FileTree (NoNewLinks waypoints)

structure BatchReport.Reordered (r r' : BatchReport) : Prop where
  caRegenerated : r'.caRegenerated = r.caRegenerated
  issued : r'.issued.Perm r.issued
  failed : r'.failed.Perm r.failed

namespace Batch

/-- The same for one identity in two batches: its fate, and what is at its files and its link. -/
structure SameFor (i : Identity) (r r' : BatchReport) (t t' : FileTree) : Prop where
  issued : i ∈ r'.issued ↔ i ∈ r.issued
  failed : ∀ error, ⟨i, error⟩ ∈ r'.failed ↔ ⟨i, error⟩ ∈ r.failed
  bundle : ∀ p ∈ (BundleFiles.ofIdentity i).stale, t'.entryAt p = t.entryAt p

/-- Identities whose bundles have no file in common, where no directory is reached through a link of
    the tree or through one that a bundle brings. -/
structure Apart (is : List Identity) (t : FileTree) : Prop where
  plain : ∀ i ∈ is, i.Plain
  distinct : ∀ i ∈ is, Distinct i
  disjoint : ∀ i ∈ is, ∀ j ∈ is, j ≠ i → ∀ l ∈ sites t j, l ∉ sites t i
  unlinked : ∀ i ∈ is, t.Unlinked (t.start i.dir) i.dir.steps
  passable : ∀ i ∈ is, ∀ j ∈ is,
    t.site (BundleFiles.ofIdentity j).link ∉ waypoints (t.start i.dir) i.dir.steps

/-- Identities that are apart from each other and from the authority. -/
structure Separate (settings : BatchSettings) (is : List Identity) (t : FileTree) : Prop
    extends Apart is t where
  root : t.Unlinked (t.start settings.ca.files.cert) settings.ca.files.cert.steps.dropLast
  cert : ∀ i ∈ is, t.site settings.ca.files.cert ∉ sites t i
  /-- A certificate that is not made anew may itself be a link. -/
  found : settings.regenerateCa = false →
    ∀ i ∈ is, ∀ l ∈ t.route .reach settings.ca.files.cert, l ∉ sites t i

structure Ground (ca : AuthoritySettings) (is : List Identity) (t : FileTree) : Prop
    extends Apart is t where
  aside : ∀ i ∈ is, ∀ l ∈ t.route .reach ca.files.cert, l ∈ sites t i → t.get? l = some .directory

theorem Apart.congr {is : List Identity} {t t' : FileTree} (apart : Apart is t)
    (links : NoNewLinks t t') (cwd : t'.cwd = t.cwd) : Apart is t' := by
  refine ⟨apart.plain, apart.distinct, ?_, fun i hi => ?_, ?_⟩
  · simpa only [Bundle.sites_congr cwd] using apart.disjoint
  · rw [FileTree.start_congr cwd]
    exact (apart.unlinked i hi).congr links
  · simpa only [FileTree.start_congr cwd, FileTree.site_congr cwd] using apart.passable

variable {failOn : Option String} {settings : BatchSettings} {topology : Topology}
  {base w start after : World (Unit × List SigningCall)} {report : BatchReport}
  {is done rest : List Identity} {i : Identity} {t t' : FileTree} {l : Location}

theorem Separate.ground (separate : Separate settings is w.tree)
    (ready : (prepare (.recording failOn false) settings).runOn w = (.ok (), start)) :
    Ground settings.ca is start.tree := by
  rcases of_prepare_ok ready with ⟨files, made⟩ | ⟨former, rfl⟩
  · obtain ⟨⟨straight, mode, content, file⟩, links, cwd⟩ :=
      Authority.bootstrap_grounded separate.root made
    refine ⟨separate.toApart.congr links cwd, fun i hi l hl inside => ?_⟩
    rcases straight.route (fun target => by rw [file]; simp) hl with directory | rfl
    · exact directory
    · rw [Bundle.sites_congr cwd, FileTree.site_congr cwd] at inside
      exact absurd inside (separate.cert i hi)
  · exact ⟨separate.toApart, fun i hi l hl inside =>
      absurd inside (separate.found former i hi l hl)⟩

def alone (failOn : Option String) (settings : BatchSettings)
    (base : World (Unit × List SigningCall)) (i : Identity) : Attempt :=
  ⟨i, ((Bundle.issue (.recording failOn false) settings.ca settings.leaf i).runOn base).1⟩

/-- Whatever is tried before an identity, what comes of it is what comes of it alone. -/
theorem attempts_eq (issuable : ∀ i ∈ done ++ rest, Issuable settings.ca settings.leaf base.tree i)
    (disjoint : ∀ i ∈ done ++ rest, ∀ j ∈ done ++ rest, j ≠ i →
      ∀ l ∈ sites base.tree j, l ∉ sites base.tree i)
    (overlaid : Overlaid failOn settings.ca settings.leaf base done w.tree) :
    (attempts (.recording failOn false) settings rest w).1 = rest.map (alone failOn settings base) ∧
      Overlaid failOn settings.ca settings.leaf base (done ++ rest)
        (attempts (.recording failOn false) settings rest w).2.tree := by
  induction rest generalizing done w with
  | nil => exact ⟨rfl, by simpa [attempts] using overlaid⟩
  | cons i rest ih =>
    have earlier : ∀ j ∈ done, Issuable settings.ca settings.leaf base.tree j :=
      fun j hj => issuable j (by simp [hj])
    have same := (overlaid.alike (issuable i (by simp)) earlier).1
    have next := overlaid.issue (issuable i (by simp)) earlier
      fun j hj other => disjoint i (by simp) j (by simp [hj]) other
    rw [List.append_cons] at issuable disjoint ⊢
    obtain ⟨later, last⟩ := ih issuable disjoint next
    refine ⟨?_, last⟩
    rw [List.map_cons, alone, ← same, ← later]
    rfl

theorem attempts_of_issuable (issuable : ∀ i ∈ is, Issuable settings.ca settings.leaf base.tree i)
    (disjoint : ∀ i ∈ is, ∀ j ∈ is, j ≠ i → ∀ l ∈ sites base.tree j, l ∉ sites base.tree i) :
    (attempts (.recording failOn false) settings is base).1 =
        is.map (alone failOn settings base) ∧
      Overlaid failOn settings.ca settings.leaf base is
        (attempts (.recording failOn false) settings is base).2.tree :=
  attempts_eq issuable disjoint .nil

theorem issuable_of_passes (ground : Ground settings.ca is base.tree) (hi : i ∈ is)
    (hdone : ∀ j ∈ done, j ∈ is)
    (earlier : ∀ j ∈ done, Issuable settings.ca settings.leaf base.tree j)
    (overlaid : Overlaid failOn settings.ca settings.leaf base done w.tree)
    (passes : Attempt.Passes settings.policy ⟨i,
      ((Bundle.issue (.recording failOn false) settings.ca settings.leaf i).runOn w).1⟩) :
    Issuable settings.ca settings.leaf base.tree i := by
  have same := overlaid.directories
  obtain ⟨subject, u, ready⟩ := prepared_of_passes passes
  have plain := ground.plain i hi
  have paved : w.tree.Paved (w.tree.start i.dir) i.dir.steps := by
    apply Bundle.paved_of_prepared plain ready
    intro tidy _ kept l hl target linked
    rw [FileTree.start_congr same.cwd] at hl
    rcases overlaid.links earlier (kept l _ linked) with old | ⟨j, hj, rfl⟩
    · exact absurd old (ground.unlinked i hi l hl target)
    · exact absurd hl (ground.passable i hi j (hdone j hj))
  obtain ⟨u', ready', _⟩ := Bundle.prepared_tidied plain paved ready same.symm
  refine ⟨plain, ground.distinct i hi, ?_, ⟨subject, u', ready'⟩, ground.aside i hi⟩
  rw [← FileTree.start_congr same.cwd]
  exact paved.congr same.symm

theorem issuable_of_all_pass (ground : Ground settings.ca (done ++ rest) base.tree)
    (earlier : ∀ j ∈ done, Issuable settings.ca settings.leaf base.tree j)
    (overlaid : Overlaid failOn settings.ca settings.leaf base done w.tree)
    (passes : ∀ a ∈ (attempts (.recording failOn false) settings rest w).1,
      a.Passes settings.policy) :
    ∀ i ∈ done ++ rest, Issuable settings.ca settings.leaf base.tree i := by
  induction rest generalizing done w with
  | nil => simpa using earlier
  | cons i rest ih =>
    obtain ⟨first, later⟩ := passes_cons passes
    have issuable := issuable_of_passes ground (by simp) (fun j hj => by simp [hj]) earlier
      overlaid first
    have next := overlaid.issue issuable earlier
      fun j hj other => ground.disjoint i (by simp) j (by simp [hj]) other
    rw [List.append_cons] at ground ⊢
    refine ih ground ?_ next later
    simp only [List.mem_append, List.mem_singleton]
    rintro j (hj | rfl)
    · exact earlier j hj
    · exact issuable

/-- From a tree where all of them can be issued, every order of identities comes to the same: each
    fares as it does alone. -/
theorem run_of_issuable (topology : Topology)
    (ready : (prepare (.recording failOn false) settings).runOn w = (.ok (), start))
    (issuable : ∀ i ∈ topology.identities, Issuable settings.ca settings.leaf start.tree i)
    (disjoint : ∀ i ∈ topology.identities, ∀ j ∈ topology.identities, j ≠ i →
      ∀ l ∈ sites start.tree j, l ∉ sites start.tree i)
    (passes : ∀ i ∈ topology.identities, (alone failOn settings start i).Passes settings.policy) :
    ∃ after, (run (.recording failOn false) settings topology).runOn w =
        (.ok (.extend ⟨settings.regenerateCa, [], []⟩
          (topology.identities.map (alone failOn settings start))), after) ∧
      Overlaid failOn settings.ca settings.leaf start topology.identities after.tree := by
  obtain ⟨tried, overlaid⟩ := attempts_of_issuable issuable disjoint
  refine ⟨_, ?_, overlaid⟩
  rw [run_of_passes ready (by rw [tried]; simpa using passes), tried]

theorem mem_issued_alone :
    i ∈ (is.map (alone failOn settings base)).filterMap Attempt.issued? ↔
      i ∈ is ∧ (alone failOn settings base i).issued? = some i := by
  rw [List.mem_filterMap]
  constructor
  · rintro ⟨a, ha, issued⟩
    obtain ⟨j, hj, rfl⟩ := List.mem_map.1 ha
    obtain rfl : j = i := by
      unfold Attempt.issued? at issued
      split at issued
      · simpa [alone] using issued
      · cases issued
    exact ⟨hj, issued⟩
  · rintro ⟨hi, issued⟩
    exact ⟨_, List.mem_map_of_mem hi, issued⟩

theorem mem_failed_alone {error : String} :
    ⟨i, error⟩ ∈ (is.map (alone failOn settings base)).filterMap Attempt.failed? ↔
      i ∈ is ∧ (alone failOn settings base i).failed? = some ⟨i, error⟩ := by
  rw [List.mem_filterMap]
  constructor
  · rintro ⟨a, ha, failed⟩
    obtain ⟨j, hj, rfl⟩ := List.mem_map.1 ha
    obtain rfl : j = i := by
      unfold Attempt.failed? at failed
      split at failed
      · cases failed
      · exact congrArg FailedIdentity.identity (Option.some.inj failed)
    exact ⟨hj, failed⟩
  · rintro ⟨hi, failed⟩
    exact ⟨_, List.mem_map_of_mem hi, failed⟩

/-- A batch whose identities are separate comes to the same in every order of them, and each of
    them fares as it would alone, whatever becomes of the others. -/
theorem run_reordered (separate : Separate settings topology.identities w.tree)
    (ran : (run (.recording failOn false) settings topology).runOn w = (.ok report, after)) :
    (∀ other : Topology, other.identities.Perm topology.identities →
      ∃ report' after', (run (.recording failOn false) settings other).runOn w =
          (.ok report', after') ∧
        report.Reordered report' ∧ after.tree.SameEntries after'.tree) ∧
    ∀ i ∈ topology.identities, ∃ report' after',
      (run (.recording failOn false) settings ⟨[i]⟩).runOn w = (.ok report', after') ∧
        SameFor i report report' after.tree after'.tree := by
  obtain ⟨start, ready, passes, rfl, rfl⟩ := of_run_ok ran
  have ground := separate.ground ready
  have issuable : ∀ i ∈ topology.identities, Issuable settings.ca settings.leaf start.tree i :=
    issuable_of_all_pass ground (by simp) .nil passes
  obtain ⟨tried, overlaid⟩ := attempts_of_issuable issuable ground.disjoint
  rw [tried] at passes ⊢
  have each (is : List Identity) (within : ∀ i ∈ is, i ∈ topology.identities) :=
    run_of_issuable ⟨is⟩ ready (fun i hi => issuable i (within i hi))
      (fun i hi j hj => ground.disjoint i (within i hi) j (within j hj))
      (fun i hi => passes _ (List.mem_map_of_mem (within i hi)))
  constructor
  · intro other perm
    obtain ⟨after', ran', overlaid'⟩ := each other.identities fun i hi => perm.mem_iff.1 hi
    refine ⟨_, after', ran', ⟨rfl, ?_, ?_⟩, overlaid.sameEntries overlaid' fun j => perm.mem_iff⟩
    · exact (perm.map _).filterMap _
    · exact (perm.map _).filterMap _
  · intro i hi
    obtain ⟨after', ran', overlaid'⟩ := each [i] (by simpa using hi)
    refine ⟨_, after', ran', ⟨?_, fun error => ?_, fun p hp => ?_⟩⟩
    · simp only [BatchReport.extend, List.nil_append, mem_issued_alone, List.mem_singleton, hi]
    · simp only [BatchReport.extend, List.nil_append, mem_failed_alone, List.mem_singleton, hi]
    · exact overlaid.entryAt overlaid' (issuable i hi) hi (by simp) hp

namespace Sample

def neighbour : Identity := .make .peer ⟨"peer"⟩ none none

def pair : Topology := ⟨[Bundle.Sample.client, neighbour]⟩

def tree : FileTree :=
  { Bundle.Sample.tree with entries := Bundle.Sample.tree.entries ++ [(["peer"], .directory)] }

end Sample

/-- The request of the client fails, before its neighbour has its turn or after. -/
theorem run_reordered_of_two :
    Separate Sample.renewing Sample.pair.identities Sample.tree ∧
      ∃ report after, (run (.recording (some "client.csr") false) Sample.renewing
          Sample.pair).runOn ⟨Sample.tree, ((), [])⟩ = (.ok report, after) ∧
        report.issued = [Sample.neighbour] ∧
        ∃ report' after', (run (.recording (some "client.csr") false) Sample.renewing
            ⟨[Sample.neighbour, Bundle.Sample.client]⟩).runOn ⟨Sample.tree, ((), [])⟩ =
              (.ok report', after') ∧
          report.Reordered report' ∧ after.tree.SameEntries after'.tree := by
  have separate : Separate Sample.renewing Sample.pair.identities Sample.tree := {
    plain := by
      simp only [Sample.pair, List.forall_mem_cons]
      exact ⟨⟨by decide, by decide, by decide, by decide, by decide⟩,
        ⟨by decide, by decide, by decide, by decide, by decide⟩, by simp⟩
    distinct := by decide +kernel
    disjoint := by decide +kernel
    unlinked := by decide +kernel
    passable := by decide +kernel
    root := by decide +kernel
    cert := by decide +kernel
    found := by decide }
  let report : BatchReport := ⟨true, [Sample.neighbour], [⟨Bundle.Sample.client,
    "signing failed: command failed: mock csr (exit status: 1): injected failure"⟩]⟩
  have ran : (run (.recording (some "client.csr") false) Sample.renewing Sample.pair).runOn
      ⟨Sample.tree, ((), [])⟩ = (.ok report, _) :=
    Prod.ext (eq_ok_of_toOption (by decide +kernel)) rfl
  obtain ⟨orders, _⟩ := run_reordered separate ran
  exact ⟨separate, report, _, ran, rfl,
    orders ⟨[Sample.neighbour, Bundle.Sample.client]⟩ (List.Perm.swap ..)⟩

end Batch

end NetworkCa
