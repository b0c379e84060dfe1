import NetworkCa.Proofs.Path.LinkTarget

namespace NetworkCa.Path

variable {cwd : Location} {a b : Location} {certName : String}

theorem foldl_stepFrom {names : List String} (nonempty : ∀ s ∈ names, s ≠ "") (l : Location) :
    ((names.map Component.ofStep).filter (· ≠ .current)).foldl stepFrom l =
      names.foldl follow l := by
  induction names generalizing l with
  | nil => rfl
  | cons s rest ih =>
    have onward := ih fun r hr => nonempty r (by simp [hr])
    have named := nonempty s (by simp)
    rw [List.map_cons, List.foldl_cons, ← onward]
    by_cases current : s = "."
    · rw [Component.ofStep, if_pos current, List.filter_cons_of_neg (by simp), follow,
        if_pos (.inr current)]
    · rw [follow, if_neg (by simp [named, current])]
      by_cases parent : s = ".."
      · rw [Component.ofStep, if_neg current, if_pos parent, List.filter_cons_of_pos (by simp),
          List.foldl_cons, if_pos parent]
        rfl
      · rw [Component.ofStep, if_neg current, if_neg parent, List.filter_cons_of_pos (by simp),
          List.foldl_cons, if_neg parent]
        rfl

theorem foldl_components {p : Path} (absolute : p.isAbsolute = true) :
    p.components.foldl stepFrom [] = p.steps.foldl follow [] := by
  rw [components, if_pos absolute, List.foldl_cons, stepFrom]
  exact foldl_stepFrom (fun s hs => by simpa using (List.mem_filter.1 hs).2) []

theorem absolute_eq_follow (cwd : Location) (p : Path) :
    p.absolute cwd =
      p.steps.foldl follow (if p.isAbsolute then [] else cwd.path.steps.foldl follow []) := by
  rw [absolute]
  by_cases rooted : p.isAbsolute = true
  · rw [join, if_pos rooted, if_pos rooted, foldl_components rooted]
  · have relative : p.isAbsolute = false := by simpa using rooted
    have fromRoot : cwd.path.isAbsolute = true := by simp [Location.path, isAbsolute]
    rw [if_neg rooted, foldl_components ((isAbsolute_join _ relative).trans fromRoot),
      steps_join _ relative, List.foldl_append]

theorem absolute_eq (plain : ∀ s ∈ cwd, PlainName s) (p : Path) :
    p.absolute cwd = p.steps.foldl follow (if p.isAbsolute then [] else cwd) := by
  rw [absolute_eq_follow, steps_path plain, foldl_follow_names plain]
  rfl

theorem absolute_join (cwd : Location) (base : Path) {p : Path} (relative : p.isAbsolute = false) :
    (base.join p).absolute cwd = p.steps.foldl follow (base.absolute cwd) := by
  rw [absolute_eq_follow, isAbsolute_join base relative, steps_join base relative,
    List.foldl_append, ← absolute_eq_follow]

theorem filter_drop_segments (hb : ∀ s ∈ b, PlainName s) (d : Nat) :
    (b.segments.drop d).filter (· ≠ "") = b.drop (d - 1) := by
  have all (e : Nat) : (b.drop e).filter (· ≠ "") = b.drop e := by
    rw [List.filter_eq_self]
    intro s hs
    simpa using (hb s (List.mem_of_mem_drop hs)).ne_empty
  cases b with
  | nil => rcases d with _ | _ | _ | d <;> simp [Location.segments]
  | cons s rest =>
    cases d with
    | zero => simpa [Location.segments] using all 0
    | succ d => simpa [Location.segments] using all d

/-- Some steps up, and then steps down to `b`, of which `a` shares the part that is left out. -/
def Climbs (a b : Location) (names : List String) : Prop :=
  ∃ k d, names = List.replicate k ".." ++ b.drop d ∧ a.take (a.length - k) = b.take d

theorem climbs_of_segments (ha : ∀ s ∈ a, PlainName s) (hb : ∀ s ∈ b, PlainName s) {d : Nat}
    (hd : d ≤ a.segments.length) (same : a.segments.take d = b.segments.take d) :
    Climbs a b ((via a.segments b.segments d).filter (· ≠ "")) := by
  refine ⟨_, d - 1, ?_, take_eq_of_segments ha hb hd same⟩
  rw [via, List.filter_append, filter_drop_segments hb]
  simp

theorem climbs_legacy (ha : ∀ s ∈ a, PlainName s) (hb : ∀ s ∈ b, PlainName s) :
    Climbs a b (ofString (legacyRelative a.segments b.segments)).steps := by
  obtain ⟨bound, same⟩ := take_divergence a.segments b.segments
  rw [steps, segments_legacyRelative hb]
  exact climbs_of_segments ha hb bound same

theorem climbs_shortest (ha : ∀ s ∈ a, PlainName s) (hb : ∀ s ∈ b, PlainName s)
    (other : shortestRelative a.segments b.segments ≠ ".") :
    Climbs a b (ofString (shortestRelative a.segments b.segments)).steps := by
  obtain ⟨bound, same⟩ := take_commonLength a.segments b.segments
  rw [shortestRelative_eq, ne_eq, ite_eq_left_iff, Classical.not_imp] at other
  rw [steps, segments_shortestRelative hb, if_neg other.1]
  exact climbs_of_segments ha hb bound same

theorem climbs_relative (style : LinkStyle) (cwd : Location) (start goal : Path) :
    Climbs (start.absolute cwd) (goal.absolute cwd)
      ((ofString (relative style cwd start goal)).steps.filter (· ≠ ".")) := by
  have hs : ∀ s ∈ start.absolute cwd, PlainName s := fun _ => plainName_of_mem_absolute
  have hg : ∀ s ∈ goal.absolute cwd, PlainName s := fun _ => plainName_of_mem_absolute
  -- There is a dot only where both directories are the same.
  have undotted {names : List String} (climbs : Climbs (start.absolute cwd) (goal.absolute cwd)
      names) : names.filter (· ≠ ".") = names := by
    obtain ⟨k, d, rfl, _⟩ := climbs
    rw [List.filter_eq_self]
    intro s h
    rcases List.mem_append.1 h with h | h
    · rw [List.eq_of_mem_replicate h]
      decide
    · simpa using (hg s (List.mem_of_mem_drop h)).ne_current
  by_cases dot : relative style cwd start goal = "."
  · have steps : (ofString ".").steps.filter (· ≠ ".") = [] := by
      rw [steps_of_no_slash (by decide) (by decide)]
      rfl
    have resolved := resolve_relative style cwd start goal
    rw [dot, resolve_of_no_slash (by decide), follow, if_pos (.inr rfl)] at resolved
    rw [dot, steps, resolved]
    exact ⟨0, (goal.absolute cwd).length, by simp, by simp⟩
  · cases style with
    | legacy =>
      have climbs := climbs_legacy hs hg
      rw [relative, undotted climbs]
      exact climbs
    | shortest =>
      have climbs := climbs_shortest hs hg dot
      rw [relative, undotted climbs]
      exact climbs

theorem steps_underRelative (rel : String) {name : String} (h : PlainName name) :
    ∃ dots, (∀ s ∈ dots, s = ".") ∧ (ofString (underRelative rel name)).steps =
      dots ++ (ofString rel).steps ++ [name] := by
  obtain ⟨front, segments, led⟩ := segments_underRelative rel name
  have last : (ofString name).segments.filter (· ≠ "") = [name] :=
    steps_of_no_slash h.ne_empty h.no_slash
  have all : (ofString (underRelative rel name)).steps =
      "." :: (front.filter (· ≠ "") ++ [name]) := by
    rw [steps, segments, List.filter_cons_of_pos (by decide), List.filter_append, last]
  rcases led with same | cut | ⟨dot, none⟩
  · refine ⟨["."], by simp, ?_⟩
    rw [all, same]
    rfl
  · refine ⟨["."], by simp, ?_⟩
    rw [all, steps, cut, List.filter_append, List.filter_cons_of_neg (by decide), List.filter_nil,
      List.append_nil]
    rfl
  · refine ⟨[], by simp, ?_⟩
    rw [all, none, dot, steps, segments_dot]
    rfl

/-- The steps of a link target are a climb between the directories and the certificate's name,
    with dots between them. -/
theorem steps_linkTarget (style : LinkStyle) (cwd : Location) (leafDir caDir : Path)
    {certName : String} (h : PlainName certName) :
    ∃ names, (ofString (linkTarget style cwd leafDir caDir certName)).steps =
        names ++ [certName] ∧
      Climbs (leafDir.absolute cwd) (caDir.absolute cwd) (names.filter (· ≠ ".")) := by
  obtain ⟨dots, all, steps⟩ := steps_underRelative (relative style cwd leafDir caDir) h
  refine ⟨_, steps, ?_⟩
  have none : dots.filter (· ≠ ".") = [] := by
    rw [List.filter_eq_nil_iff]
    intro s hs
    simp [all s hs]
  rw [List.filter_append, none]
  exact climbs_relative style cwd leafDir caDir

theorem endsInSlash_linkTarget (style : LinkStyle) (cwd : Location) (leafDir caDir : Path)
    (h : PlainName certName) :
    (ofString (linkTarget style cwd leafDir caDir certName)).endsInSlash = false := by
  rw [linkTarget, underRelative]
  split
  · exact endsInSlash_append _ h.ne_empty h.no_slash
  split
  · exact endsInSlash_append _ h.ne_empty h.no_slash
  · exact endsInSlash_append _ h.ne_empty h.no_slash

end NetworkCa.Path
