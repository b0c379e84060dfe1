import NetworkCa.Proofs.FileTree.Straight
import NetworkCa.Proofs.Path.LinkSteps

namespace NetworkCa.FileTree

open NetworkCa.Path (follow Climbs)

variable {t t' : FileTree} {purpose : Purpose} {here a b l home goal : Location} {name : String}
  {names rest : List String} {p : Path} {S : Location → Prop}

/-- A place that is the end of a way through directories only, from the root on. -/
structure Seated (t : FileTree) (l : Location) : Prop where
  names : ∀ s ∈ l, PlainName s ∧ s.utf8ByteSize ≤ maxName
  directories : ∀ k, t.get? (l.take k) = some .directory

theorem seated_root (t : FileTree) : Seated t [] := ⟨by simp, fun _ => by rw [List.take_nil]; rfl⟩

theorem Seated.congr (same : SameDirectories t t') (seated : Seated t l) : Seated t' l :=
  ⟨seated.names, fun k => (same.iff _).2 (seated.directories k)⟩

theorem Seated.parent (seated : Seated t l) : Seated t l.parent := by
  refine ⟨fun s hs => seated.names s (l.dropLast_subset hs), fun k => ?_⟩
  rw [Location.parent, List.dropLast_eq_take, List.take_take]
  exact seated.directories _

theorem Seated.child (seated : Seated t here) (plain : PlainName name)
    (short : name.utf8ByteSize ≤ maxName) (directory : t.get? (here ++ [name]) = some .directory) :
    Seated t (here ++ [name]) := by
  refine ⟨fun s hs => ?_, fun k => ?_⟩
  · rcases List.mem_append.1 hs with hs | hs
    · exact seated.names s hs
    · obtain rfl : s = name := by simpa using hs
      exact ⟨plain, short⟩
  · by_cases whole : (here ++ [name]).length ≤ k
    · rwa [List.take_of_length_le whole]
    · have short : k ≤ here.length := by
        simp only [List.length_append, List.length_singleton] at whole
        omega
      rw [List.take_append_of_le_length short]
      exact seated.directories k

theorem Seated.onward (seated : Seated t here) (paved : Paved t here names)
    (cut : ∀ s ∈ names, '/' ∉ s.toList) : Seated t (names.foldl follow here) := by
  induction names generalizing here with
  | nil => exact seated
  | cons name rest ih =>
    obtain ⟨⟨nonempty, short⟩, directory, onward⟩ := paved_cons.1 paved
    have next : Seated t (Path.follow here name) := by
      by_cases special : name = "." ∨ name = ".."
      · rcases special with rfl | rfl
        · exact seated
        · exact seated.parent
      · have entry := directory (here ++ [name]) (by simp [looksAt, special])
        rw [follow_of_plain nonempty special]
        rw [not_or] at special
        exact seated.child ⟨nonempty, special.1, special.2, cut name (by simp)⟩ short entry
    exact ih next onward fun s hs => cut s (by simp [hs])

theorem Seated.paved (seated : Seated t (here ++ names)) : Paved t here names := by
  induction names generalizing here with
  | nil => exact paved_nil
  | cons name rest ih =>
    obtain ⟨plain, short⟩ := seated.names name (by simp)
    have special : ¬(name = "." ∨ name = "..") := by simp [plain.ne_current, plain.ne_parent]
    have entry := seated.directories (here.length + 1)
    rw [List.take_append, List.take_of_length_le (by omega), Nat.add_sub_cancel_left,
      List.take_succ_cons, List.take_zero] at entry
    refine paved_cons.2 ⟨⟨plain.ne_empty, short⟩, by simpa [looksAt, special] using entry, ?_⟩
    rw [Path.follow_plain plain]
    apply ih
    simpa using seated

theorem Paved.append (first : Paved t here names) (then' : Paved t (names.foldl follow here) rest) :
    Paved t here (names ++ rest) := by
  induction names generalizing here with
  | nil => exact then'
  | cons name names ih =>
    obtain ⟨sized, directory, onward⟩ := paved_cons.1 first
    exact paved_cons.2 ⟨sized, directory, ih onward then'⟩

theorem paved_parents (t : FileTree) (here : Location) (k : Nat) :
    Paved t here (List.replicate k "..") := by
  induction k generalizing here with
  | zero => exact paved_nil
  | succ k ih => exact paved_cons.2 ⟨by decide, by simp [looksAt], ih _⟩

theorem paved_undotted (paved : Paved t here (names.filter (· ≠ "."))) :
    Paved t here names ∧
      names.foldl follow here = (names.filter (· ≠ ".")).foldl follow here := by
  induction names generalizing here with
  | nil => exact ⟨paved, rfl⟩
  | cons name rest ih =>
    by_cases dot : name = "."
    · subst dot
      rw [List.filter_cons_of_neg (by simp)] at paved ⊢
      obtain ⟨onward, same⟩ := ih paved
      exact ⟨paved_cons.2 ⟨by decide, by simp [looksAt], onward⟩, same⟩
    · rw [List.filter_cons_of_pos (by simpa using dot)] at paved ⊢
      obtain ⟨sized, directory, onward⟩ := paved_cons.1 paved
      obtain ⟨onward, same⟩ := ih onward
      exact ⟨paved_cons.2 ⟨sized, directory, onward⟩, same⟩

theorem Seated.climb (seated : Seated t b) (climbs : Climbs a b names) :
    Paved t a names ∧ names.foldl follow a = b := by
  obtain ⟨k, d, rfl, same⟩ := climbs
  have down := Path.foldl_follow_parents a k
  rw [same] at down
  refine ⟨(paved_parents t a k).append ?_, ?_⟩
  · rw [down]
    apply Seated.paved
    rwa [List.take_append_drop]
  · rw [List.foldl_append, down,
      Path.foldl_follow_names fun s hs => (seated.names s (List.mem_of_mem_drop hs)).1,
      List.take_append_drop]

theorem absolute_eq_site (plain : ∀ s ∈ t.cwd, PlainName s) (p : Path) :
    p.absolute t.cwd = t.site p := Path.absolute_eq plain p

theorem Straight.seated (straight : t.Straight p) (cwd : t.Seated t.cwd) :
    t.Seated (t.site p).parent := by
  obtain ⟨front, last, steps, plain, _, paved⟩ := straight
  rw [site_of_steps steps plain, Location.parent, List.dropLast_concat]
  have start : t.Seated (t.start p) := by
    rw [FileTree.start]
    split
    · exact seated_root t
    · exact cwd
  apply start.onward paved
  intro s hs
  have member : s ∈ p.steps := steps ▸ List.mem_append_left _ hs
  exact Path.no_slash_of_mem_segments (List.mem_filter.1 member).1

def Leads (t : FileTree) (l : Location) (target : Path) (goal : Location) : Prop :=
  ∃ front last, target.steps = front ++ [last] ∧ ¬(last = "." ∨ last = "..") ∧
    t.Paved (linkStart l.parent target) front ∧
    front.foldl follow (linkStart l.parent target) ++ [last] = goal

theorem Leads.congr {target : Path} (same : SameDirectories t t') (leads : t.Leads l target goal) :
    t'.Leads l target goal := by
  obtain ⟨front, last, steps, plain, paved, arrives⟩ := leads
  exact ⟨front, last, steps, plain, paved.congr same, arrives⟩

theorem leads_linkTarget (style : LinkStyle) (plain : ∀ s ∈ t.cwd, PlainName s) (leafDir : Path)
    {caDir : Path} (seated : t.Seated (t.site caDir)) {certName : String}
    (named : PlainName certName) (link : String) :
    t.Leads (t.site leafDir ++ [link])
      ⟨Path.linkTarget style t.cwd leafDir caDir certName⟩ (t.site caDir ++ [certName]) := by
  obtain ⟨names, steps, climbs⟩ := Path.steps_linkTarget style t.cwd leafDir caDir named
  obtain ⟨-, relative⟩ := Path.linkTarget_resolves style t.cwd leafDir caDir named
  rw [absolute_eq_site plain, absolute_eq_site plain] at climbs
  obtain ⟨paved, arrives⟩ := seated.climb climbs
  obtain ⟨paved, same⟩ := paved_undotted paved
  have start : linkStart (Location.parent (t.site leafDir ++ [link]))
      ⟨Path.linkTarget style t.cwd leafDir caDir certName⟩ = t.site leafDir := by
    rw [linkStart, if_neg (by simpa [Path.ofString] using relative), Location.parent,
      List.dropLast_concat]
  refine ⟨names, certName, steps, by simp [named.ne_current, named.ne_parent], ?_, ?_⟩
  · rw [start]
    exact paved
  · rw [start, same, arrives]

theorem Straight.get?_of_entryAt {e : Entry} (straight : t.Straight p) (h : t.entryAt p = .ok e) :
    t.get? (t.site p) = some e := by
  obtain ⟨place, slash, looked⟩ := entryAt_eq_ok.1 h
  rcases straight.lookup_cases with ⟨failure, _, refused⟩ | arrives
  · rw [refused .inspect t (.refl t)] at looked
    cases looked
  · rw [arrives .inspect t (.refl t) (by simp [Purpose.follows])] at looked
    exact (arrive_ok looked).2.1.symm

theorem Straight.lookup_reach_link {q target : Path} {spot : Spot} (straight : t.Straight p)
    (entry : t.entryAt p = .ok (.link target)) (leads : t.Leads (t.site p) target (t.site q))
    (unslashed : target.endsInSlash = false) (straight' : t.Straight q)
    (near : t.walk .reach (maxLinks - 1) (t.start q) q.steps q.endsInSlash ≠ .error .linkLoop)
    (found : t.lookup .reach q = .ok spot) : t.lookup .reach p = .ok spot := by
  have linked := straight.get?_of_entryAt entry
  obtain ⟨place, slash, looked⟩ := entryAt_eq_ok.1 entry
  obtain ⟨front, last, steps, plain, ending, paved⟩ := straight
  obtain ⟨down, name, targetSteps, _, paved', arrives⟩ := leads
  obtain ⟨front', last', steps', plain', ending', paved''⟩ := straight'
  have walked := walk_of_lookup_ok looked
  rw [walked, steps, ending, walk_paved paved (by simp)] at looked
  rw [site_of_steps steps plain] at linked paved' arrives
  rw [site_of_steps steps' plain', Location.parent, List.dropLast_concat] at arrives
  rw [Location.parent, List.dropLast_concat] at paved'
  obtain ⟨same, sameName⟩ := List.append_inj' arrives rfl
  have step : t.move .reach (front.foldl follow (t.start p)) last [] false =
      .jump (linkStart (front.foldl follow (t.start p)) target) target.steps false := by
    have accepted : refusal? .inspect last [] false = none := by
      rcases refused : refusal? .inspect last [] false with _ | failure
      · rfl
      · rw [walk_halt (move_refused plain refused)] at looked
        cases looked
    rw [move_accepted plain (by simpa [refusal?] using accepted), linked]
    simp [meet, Purpose.follows, unslashed]
  have once : t.walk .reach (maxLinks - 1) (t.start q) q.steps q.endsInSlash = .ok spot := by
    rw [← walk_more_links near, ← found, walk_of_lookup_ok found]
    rfl
  rw [steps', ending', walk_paved paved'' (by simp)] at once
  rw [walked, steps, ending, walk_paved paved (by simp)]
  change t.walk .reach (maxLinks - 1 + 1) _ _ _ = _
  rw [walk_jump_succ step, targetSteps, walk_paved paved' (by simp), same, sameName, once]

/-- Every link at one of the places `S` leads to `home`, which is one of them. -/
structure Homing (S : Location → Prop) (home : Location) (t : FileTree) : Prop where
  inside : S home
  leads : ∀ l, S l → ∀ target, t.get? l = some (.link target) → t.Leads l target home

theorem Homing.routeFrom (homing : Homing S home t) (links : Nat) {last : String} {slash : Bool}
    (plain : ¬(last = "." ∨ last = "..")) (inside : S (here ++ [last])) :
    ∀ l ∈ t.routeFrom purpose links here [last] slash, t.get? l = some .directory ∨ S l := by
  -- The induction is on the links that may still be followed, each of which leads home.
  induction links using Nat.strongRecOn generalizing here last slash with
  | ind links ih =>
    intro l hl
    rw [routeFrom_cons] at hl
    rcases List.mem_append.1 hl with hl | hl
    · obtain rfl : l = here ++ [last] := by simpa [looksAt, plain] using hl
      exact .inr inside
    cases step : t.move purpose here last [] slash with
    | halt result => simp [step] at hl
    | enter directory =>
      rcases move_enter step with special | ⟨more, _⟩
      · exact absurd special plain
      · exact absurd rfl more
    | jump start names ending =>
      cases links with
      | zero => simp [step] at hl
      | succ fewer =>
        simp only [step] at hl
        obtain ⟨_, _, target, entry, onward⟩ := move_jump step
        obtain ⟨front, last', steps, plain', paved, arrives⟩ := homing.leads _ inside _ entry
        rw [Location.parent, List.dropLast_concat] at paved arrives
        obtain ⟨rfl, rfl⟩ : start = linkStart here target ∧ names = target.steps := by
          simp only [meet, List.isEmpty_nil, if_true] at onward
          split at onward <;> cases onward
          exact ⟨rfl, rfl⟩
        rw [steps, routeFrom_paved paved (by simp), List.mem_append] at hl
        rcases hl with hl | hl
        · exact .inl (paved.directories l hl)
        · exact ih fewer (by omega) plain' (arrives ▸ homing.inside) l hl

theorem Straight.route_homing (straight : t.Straight p) (homing : Homing S home t)
    (inside : S (t.site p)) : ∀ l ∈ t.route purpose p, t.get? l = some .directory ∨ S l := by
  obtain ⟨front, last, steps, plain, unslashed, paved⟩ := straight
  rw [site_of_steps steps plain] at inside
  intro l hl
  rw [FileTree.route, steps, unslashed, routeFrom_paved paved (by simp), List.mem_append] at hl
  rcases hl with hl | hl
  · exact .inl (paved.directories l hl)
  · exact homing.routeFrom _ plain inside l hl

theorem Straight.route (straight : t.Straight p)
    (unlinked : ∀ target, t.get? (t.site p) ≠ some (.link target)) (hl : l ∈ t.route purpose p) :
    t.get? l = some .directory ∨ l = t.site p := by
  have homing : Homing (· = t.site p) (t.site p) t := by
    refine ⟨rfl, ?_⟩
    rintro l rfl target linked
    exact absurd linked (unlinked target)
  exact straight.route_homing homing rfl l hl

theorem Leads.deadEnd {target : Path} (leads : t.Leads l target home)
    (other : t.get? home ≠ some .directory)
    (homing : ∀ target, t.get? home = some (.link target) → t.Leads home target home) :
    t.DeadEnd purpose l target := by
  have stuck (links : Nat) {here : Location} {last : String} {rest : List String} {slash : Bool}
      (plain : ¬(last = "." ∨ last = "..")) (there : here ++ [last] = home) (more : rest ≠ [])
      (spot : Spot) : t.walk purpose links here (last :: rest) slash ≠ .ok spot := by
    induction links using Nat.strongRecOn generalizing here last rest slash with
    | ind links ih =>
      intro h
      cases step : t.move purpose here last rest slash with
      | halt result =>
        rw [walk_halt step] at h
        subst h
        exact more (move_halt_ok step).1
      | enter directory =>
        rcases move_enter step with special | ⟨_, _, _, rfl, entry⟩
        · exact plain special
        · exact other (there ▸ entry)
      | jump start names ending =>
        cases links with
        | zero =>
          rw [walk_jump_zero step] at h
          cases h
        | succ fewer =>
          rw [walk_jump_succ step] at h
          obtain ⟨_, _, target, entry, onward⟩ := move_jump step
          obtain ⟨front, last', steps, plain', paved, arrives⟩ := homing target (there ▸ entry)
          rw [← there, Location.parent, List.dropLast_concat] at paved arrives
          have unfinished : rest.isEmpty = false := by simpa using more
          simp only [meet, unfinished, Bool.false_eq_true, if_false] at onward
          cases onward
          rw [steps, List.append_assoc, walk_paved paved (by simp)] at h
          exact ih fewer (by omega) plain' (arrives.trans there) more h
  intro links rest slash spot more
  obtain ⟨front, last, steps, plain, paved, arrives⟩ := leads
  rw [steps, List.append_assoc, walk_paved paved (by simp)]
  exact stuck links plain arrives more spot

end NetworkCa.FileTree
