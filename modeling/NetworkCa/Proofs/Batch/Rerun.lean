import NetworkCa.Proofs.Authority.Refounding
import NetworkCa.Proofs.Batch.Outcome

namespace NetworkCa.Batch

open NetworkCa.Bundle (Homeward Rooted sites)
open FileTree (AgreeOutside SameDirectories)

variable {failOn : Option String} {settings : BatchSettings} {topology : Topology}
  {base : FileTree} {w w' after : World (Unit × List SigningCall)} {report : BatchReport}
  {rest : List Identity} {i : Identity} {X : Location → Prop}

structure Reachable (is : List Identity) (base : FileTree) : Prop where
  plain : ∀ i ∈ is, i.Plain
  unlinked : ∀ i ∈ is, base.Unlinked (base.start i.dir) i.dir.steps

theorem Reachable.tail (reachable : Reachable (i :: rest) base) : Reachable rest base :=
  ⟨fun j hj => reachable.plain j (by simp [hj]), fun j hj => reachable.unlinked j (by simp [hj])⟩

theorem attempts_homeward (rooted : Rooted settings.ca base) (reachable : Reachable rest base)
    (homeward : Homeward settings.ca base w.tree)
    (passes : ∀ a ∈ (attempts (.recording failOn false) settings rest w).1,
      a.Passes settings.policy) :
    Homeward settings.ca base (attempts (.recording failOn false) settings rest w).2.tree ∧
      ∀ l, (∀ i ∈ rest, l ∉ sites base i) → l ≠ base.site settings.ca.files.cert →
        (attempts (.recording failOn false) settings rest w).2.tree.get? l = w.tree.get? l := by
  induction rest generalizing w with
  | nil => exact ⟨homeward, fun _ _ _ => rfl⟩
  | cons i rest ih =>
    obtain ⟨first, later⟩ := passes_cons passes
    obtain ⟨subject, u, ready⟩ := prepared_of_passes first
    obtain ⟨next, frame⟩ := homeward.issue failOn rooted (reachable.plain i (by simp))
      (reachable.unlinked i (by simp)) ready
    obtain ⟨last, frames⟩ := ih reachable.tail next later
    refine ⟨last, fun l outside other => ?_⟩
    exact (frames l (fun j hj => outside j (by simp [hj])) other).trans
      (frame l (outside i (by simp)) other)

/-- In two trees with the same directories and the same certificate, the same comes of all
    identities, and the trees differ less and less. -/
theorem attempts_alike (rooted : Rooted settings.ca base) (reachable : Reachable rest base)
    (homeward : Homeward settings.ca base w.tree)
    (passes : ∀ a ∈ (attempts (.recording failOn false) settings rest w).1,
      a.Passes settings.policy)
    (same : SameDirectories w.tree w'.tree) (agree : w.tree.AgreeOutside X w'.tree)
    (inert : ∀ l, X l → l ≠ base.site settings.ca.files.cert ∧ base.get? l ≠ some .directory) :
    (attempts (.recording failOn false) settings rest w').1 =
        (attempts (.recording failOn false) settings rest w).1 ∧
      (attempts (.recording failOn false) settings rest w).2.tree.AgreeOutside
        (fun l => X l ∧ ∀ i ∈ rest, l ∉ sites base i)
        (attempts (.recording failOn false) settings rest w').2.tree := by
  induction rest generalizing w w' X with
  | nil => exact ⟨rfl, agree.mono fun l changed => ⟨changed, by simp⟩⟩
  | cons i rest ih =>
    obtain ⟨first, later⟩ := passes_cons passes
    obtain ⟨subject, u, ready⟩ := prepared_of_passes first
    have plain := reachable.plain i (by simp)
    have unlinked := reachable.unlinked i (by simp)
    obtain ⟨⟨equal, alike⟩, same'⟩ := homeward.issue_alike failOn rooted plain unlinked
      ready same agree inert
    have next := (homeward.issue failOn rooted plain unlinked ready).1
    obtain ⟨equals, alikes⟩ := ih reachable.tail next later same' alike
      fun l changed => inert l changed.1
    constructor
    · simp only [attempts, equal, equals]
    · refine alikes.mono ?_
      rintro l ⟨⟨changed, outside⟩, others⟩
      exact ⟨changed, List.forall_mem_cons.2 ⟨outside, others⟩⟩

/-- What a batch needs so that it can be run again: names that are plain, and directories that are
    reached through no link. -/
structure Repeatable (settings : BatchSettings) (topology : Topology) (t : FileTree) : Prop where
  anew : settings.regenerateCa = true
  filename : '/' ∉ settings.ca.filename.toList
  seated : t.Seated t.cwd
  root : t.Unlinked (t.start settings.ca.dir) settings.ca.dir.steps
  reachable : Reachable topology.identities t

/-- A batch that is run again on its own result comes to the same report and the same tree, whoever
    failed in it and whatever its bundles share. -/
theorem run_again (repeatable : Repeatable settings topology w.tree)
    (ran : (run (.recording failOn false) settings topology).runOn w = (.ok report, after))
    (memory : Unit × List SigningCall) :
    ∃ again, (run (.recording failOn false) settings topology).runOn ⟨after.tree, memory⟩ =
        (.ok report, again) ∧ after.tree.SameEntries again.tree := by
  obtain ⟨start, ready, passes, rfl, rfl⟩ := of_run_ok ran
  obtain ⟨anew, filename, seated, root, reachable⟩ := repeatable
  obtain ⟨files, made⟩ : ∃ files, (Authority.bootstrap (.recording failOn false)
      settings.ca).runOn w = (.ok files, start) := by
    rcases of_prepare_ok ready with made | ⟨former, _⟩
    · exact made
    · cases anew.symm.trans former
  obtain ⟨rooted, links, cwd⟩ := Authority.bootstrap_rooted filename seated root made
  have reachable : Reachable topology.identities start.tree := by
    refine ⟨reachable.plain, fun i hi => ?_⟩
    rw [FileTree.start_congr cwd]
    exact (reachable.unlinked i hi).congr links
  obtain ⟨homeward, frame⟩ := attempts_homeward rooted reachable (.refl _ _) passes
  -- The second authority is the first one, and what else has changed will be made again.
  have agree : start.tree.AgreeOutside
      (fun l => (∃ i ∈ topology.identities, l ∈ sites start.tree i) ∨
        l = start.tree.site settings.ca.files.cert)
      (attempts (.recording failOn false) settings topology.identities start).2.tree := by
    refine ⟨homeward.directories.cwd, fun l outside => ?_⟩
    rw [not_or] at outside
    exact frame l (fun i hi inside => outside.1 ⟨i, hi, inside⟩) outside.2
  obtain ⟨start', made', same, agree⟩ := Authority.bootstrap_again ⟨_, memory⟩ filename rooted.paved
    made homeward.directories agree
  have ready' := prepare_of_bootstrap anew made'
  have cert : start.tree.site settings.ca.files.cert ∈
      (Authority.stale settings.ca).map start.tree.site :=
    List.mem_map_of_mem (by simp [Authority.stale])
  obtain ⟨equal, alike⟩ := attempts_alike rooted reachable (.refl _ _) passes same
    (agree.sharpen same) (by
      rintro l ⟨⟨_, outside⟩, other⟩
      exact ⟨fun home => outside (home ▸ cert), other⟩)
  refine ⟨_, ?_, alike.cwd, fun l => alike.get? l ?_⟩
  · rw [run_of_passes ready' (equal ▸ passes), equal]
  · rintro ⟨⟨⟨⟨i, hi, inside⟩ | home, outside⟩, _⟩, others⟩
    · exact others i hi inside
    · exact outside (home ▸ cert)

namespace Sample

def roommates : Topology :=
  ⟨[Bundle.Sample.client, .make .peer Bundle.Sample.client.dir none none]⟩

def nested : BatchSettings where
  ca := { Bundle.Sample.authority with filename := "sub/ca" }
  leaf := { Bundle.Sample.settings with linkStyle := .shortest }
  regenerateCa := true
  policy := .bestEffort

def blocker : Identity := .make .client Bundle.Sample.authority.dir none (some "sub")

def linked : FileTree where
  entries := [(["CA"], .directory), (["real"], .directory), (["CA", "sub"], .link ⟨"../real"⟩)]
  cwd := []

def blocked : FileTree where
  entries := [(["CA", "sub"], .link ⟨"./ca.pem"⟩),
    (["real", "ca.pem"], .file .plain (Text.Utf8.encode Signer.placeholderCert)),
    (["real", "ca.key"], .file .plain (Text.Utf8.encode "KEY\n")),
    (["CA"], .directory), (["real"], .directory)]
  cwd := []

end Sample

/-- The peer's request fails in both runs, and the link is the peer's after both. -/
theorem run_again_of_roommates :
    Repeatable Sample.renewing Sample.roommates Bundle.Sample.tree ∧
      ∃ report after, (run (.recording (some "peer.csr") false) Sample.renewing
          Sample.roommates).runOn ⟨Bundle.Sample.tree, ((), [])⟩ = (.ok report, after) ∧
        report.issued = [Bundle.Sample.client] ∧
        ∃ again, (run (.recording (some "peer.csr") false) Sample.renewing
            Sample.roommates).runOn ⟨after.tree, ((), [])⟩ = (.ok report, again) ∧
          after.tree.SameEntries again.tree := by
  have repeatable : Repeatable Sample.renewing Sample.roommates Bundle.Sample.tree := {
    anew := rfl
    filename := by decide
    seated := FileTree.seated_root _
    root := by decide +kernel
    reachable := {
      plain := by
        simp only [Sample.roommates, List.forall_mem_cons]
        exact ⟨⟨by decide, by decide, by decide, by decide, by decide⟩,
          ⟨by decide, by decide, by decide, by decide, by decide⟩, by simp⟩
      unlinked := by decide +kernel } }
  let report : BatchReport := ⟨true, [Bundle.Sample.client],
    [⟨.make .peer Bundle.Sample.client.dir none none, 
      "signing failed: command failed: mock csr (exit status: 1): injected failure"⟩]⟩
  have ran : (run (.recording (some "peer.csr") false) Sample.renewing Sample.roommates).runOn
      ⟨Bundle.Sample.tree, ((), [])⟩ = (.ok report, _) :=
    Prod.ext (eq_ok_of_toOption (by decide +kernel)) rfl
  exact ⟨repeatable, report, _, ran, rfl, run_again repeatable ran ((), [])⟩

/-- Where the authority's files may be below a directory of its own, a second run can fail: a link
    to that directory gave way to the link of a bundle. -/
theorem not_run_again_of_nested :
    ¬ ∀ (failOn : Option String) (settings : BatchSettings) (topology : Topology)
      (w : World (Unit × List SigningCall)) (report : BatchReport)
      (after : World (Unit × List SigningCall)),
      settings.regenerateCa = true → w.tree.Seated w.tree.cwd →
      w.tree.Unlinked (w.tree.start settings.ca.dir) settings.ca.dir.steps →
      Reachable topology.identities w.tree →
      (run (.recording failOn false) settings topology).runOn w = (.ok report, after) →
      ∀ memory, ∃ again, (run (.recording failOn false) settings topology).runOn
          ⟨after.tree, memory⟩ = (.ok report, again) ∧ after.tree.SameEntries again.tree := by
  intro all
  have reachable : Reachable [Sample.blocker] Sample.linked := {
    plain := by
      simp only [List.forall_mem_cons]
      exact ⟨⟨by decide, by decide, by decide, by decide, by decide⟩, by simp⟩
    unlinked := by decide +kernel }
  let report : BatchReport := ⟨true, [], [⟨Sample.blocker,
    "signing failed: command failed: mock key (exit status: 1): injected failure"⟩]⟩
  rcases ran : (run (.recording (some "client") false) Sample.nested ⟨[Sample.blocker]⟩).runOn
    ⟨Sample.linked, ((), [])⟩ with ⟨result, after⟩
  obtain rfl : result = .ok report :=
    (congrArg Prod.fst ran).symm.trans (eq_ok_of_toOption (by decide +kernel))
  have left : after.tree = Sample.blocked := by
    have entries : after.tree.entries = Sample.blocked.entries :=
      (congrArg (fun r => r.2.tree.entries) ran).symm.trans (by decide +kernel)
    have cwd : after.tree.cwd = Sample.blocked.cwd :=
      (congrArg (fun r => r.2.tree.cwd) ran).symm.trans (by decide +kernel)
    rcases after with ⟨⟨_, _⟩, _⟩
    cases entries
    cases cwd
    rfl
  obtain ⟨again, ran', _⟩ := all _ Sample.nested ⟨[Sample.blocker]⟩ _ report after rfl
    (FileTree.seated_root _) (by decide +kernel) reachable ran ((), [])
  rw [left] at ran'
  have failed : ((run (.recording (some "client") false) Sample.nested ⟨[Sample.blocker]⟩).runOn
      ⟨Sample.blocked, ((), [])⟩).1.toOption = none := by decide +kernel
  rw [ran'] at failed
  cases failed

end NetworkCa.Batch
