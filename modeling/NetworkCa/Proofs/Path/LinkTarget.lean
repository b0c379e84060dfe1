import NetworkCa.Proofs.Path.Resolution

namespace NetworkCa.Path

theorem plainName_of_mem_absolute {cwd : Location} {p : Path} {s : String}
    (h : s ∈ p.absolute cwd) : PlainName s := by
  have walk : ∀ (parts : List Component) (l : Location), (∀ r, .name r ∈ parts → PlainName r) →
      (∀ r ∈ l, PlainName r) → ∀ r ∈ parts.foldl stepFrom l, PlainName r := by
    intro parts
    induction parts with
    | nil => intro l _ hl; exact hl
    | cons part rest ih =>
      intro l names hl
      apply ih _ fun r hr => names r (by simp [hr])
      intro r hr
      cases part with
      | root => cases hr
      | current => exact hl r hr
      | parent => exact hl r (l.dropLast_subset hr)
      | name n =>
        rcases List.mem_append.mp hr with hr | hr
        · exact hl r hr
        · obtain rfl := List.mem_singleton.mp hr
          exact names r (by simp)
  exact walk _ [] (fun r hr => plainName_of_mem_components hr) (by simp) s h

theorem segments_path {l : Location} (h : ∀ s ∈ l, PlainName s) :
    l.path.segments = l.segments := by
  have first : (ofString ("" ++ "/" ++ "/".intercalate l)).segments =
      [""] ++ (ofString ("/".intercalate l)).segments := by
    rw [segments_append_slash, segments_empty]
  cases l with
  | nil => exact first.trans (congrArg ([""] ++ ·) segments_empty)
  | cons s rest =>
    rw [segments_intercalate (by simp) fun r hr => (h r hr).no_slash] at first
    exact first

theorem steps_path {l : Location} (h : ∀ s ∈ l, PlainName s) : l.path.steps = l := by
  rw [steps, segments_path h]
  cases l with
  | nil => rfl
  | cons s rest => simpa [Location.segments] using fun r hr => (h r hr).ne_empty

theorem segments_absolutize (cwd : Location) (p : Path) :
    (p.absolutize cwd).segments = (p.absolute cwd).segments :=
  segments_path fun _ hs => plainName_of_mem_absolute hs

theorem steps_absolutize (cwd : Location) (p : Path) : (p.absolutize cwd).steps = p.absolute cwd :=
  steps_path fun _ hs => plainName_of_mem_absolute hs

theorem resolve_of_no_slash {s : String} (h : '/' ∉ s.toList) (l : Location) :
    resolve l s = follow l s := by
  rw [resolve, segments_of_no_slash h]
  rfl

theorem no_slash_of_mem_segments_location {l : Location} (h : ∀ s ∈ l, PlainName s) {s : String}
    (hs : s ∈ l.segments) : '/' ∉ s.toList := by
  cases l with
  | nil => simp_all [Location.segments]
  | cons r rest =>
    rcases List.mem_cons.mp hs with rfl | hs
    · decide
    · exact (h s hs).no_slash

theorem segments_of_ne_nil {l : Location} (deep : l ≠ []) : l.segments = "" :: l := by
  cases l with
  | nil => exact absurd rfl deep
  | cons s rest => rfl

theorem two_le_length_segments (l : Location) : 2 ≤ l.segments.length := by
  cases l <;> simp [Location.segments]

theorem segments_ne_nil (l : Location) : l.segments ≠ [] := by
  have some := two_le_length_segments l
  rw [← List.length_pos_iff]
  omega

theorem no_slash_of_mem_via {a : List String} {b : Location} (hb : ∀ s ∈ b, PlainName s) {d : Nat} :
    ∀ s ∈ via a b.segments d, '/' ∉ s.toList := by
  intro s hs
  rcases List.mem_append.mp hs with hs | hs
  · rw [List.eq_of_mem_replicate hs]
    decide
  · exact no_slash_of_mem_segments_location hb (List.mem_of_mem_drop hs)

section Segments

variable {a b : Location} (ha : ∀ s ∈ a, PlainName s) (hb : ∀ s ∈ b, PlainName s)

include hb

theorem segments_legacyRelative :
    (ofString (legacyRelative a.segments b.segments)).segments =
      via a.segments b.segments (divergence a.segments b.segments) := by
  have left := drop_divergence_ne_nil (a := a.segments) (segments_ne_nil b)
  rw [legacyRelative_eq (segments_ne_nil b), segments_intercalate _ (no_slash_of_mem_via hb)]
  exact List.append_ne_nil_of_right_ne_nil _ left

theorem segments_shortestRelative :
    (ofString (shortestRelative a.segments b.segments)).segments =
      if via a.segments b.segments (commonLength a.segments b.segments) = [] then ["."]
      else via a.segments b.segments (commonLength a.segments b.segments) := by
  rw [shortestRelative_eq]
  split
  · exact segments_of_no_slash (by decide)
  · next some => exact segments_intercalate some (no_slash_of_mem_via hb)

include ha

theorem resolve_legacyRelative : resolve a (legacyRelative a.segments b.segments) = b := by
  obtain ⟨bound, same⟩ := take_divergence a.segments b.segments
  rw [resolve, segments_legacyRelative hb]
  exact foldl_follow_climb ha hb bound same

theorem resolve_shortestRelative : resolve a (shortestRelative a.segments b.segments) = b := by
  obtain ⟨bound, same⟩ := take_commonLength a.segments b.segments
  have climb := foldl_follow_climb ha hb bound same
  rw [resolve, segments_shortestRelative hb]
  split
  · next none =>
    rw [none] at climb
    simpa [follow] using climb
  · exact climb

end Segments

theorem resolve_relative (style : LinkStyle) (cwd : Location) (start goal : Path) :
    resolve (start.absolute cwd) (relative style cwd start goal) = goal.absolute cwd := by
  have hs : ∀ s ∈ start.absolute cwd, PlainName s := fun _ => plainName_of_mem_absolute
  have hg : ∀ s ∈ goal.absolute cwd, PlainName s := fun _ => plainName_of_mem_absolute
  unfold relative
  cases style with
  | legacy => exact resolve_legacyRelative hs hg
  | shortest => exact resolve_shortestRelative hs hg

/-- A link target starts with a dot, leads along the relative path, of which an empty segment at the
    end or a single dot is left out, and ends with the name. -/
theorem segments_underRelative (rel name : String) :
    ∃ front, (ofString (underRelative rel name)).segments =
        "." :: (front ++ (ofString name).segments) ∧
      (front = (ofString rel).segments ∨ (ofString rel).segments = front ++ [""] ∨
        rel = "." ∧ front = []) := by
  have here (q : String) : (ofString ("./" ++ q)).segments = "." :: (ofString q).segments := by
    rw [show "./" ++ q = "." ++ "/" ++ q from rfl, segments_append_slash, segments_dot]
    rfl
  unfold underRelative
  split
  · next dot => exact ⟨[], here name, .inr (.inr ⟨dot, rfl⟩)⟩
  split
  · next ends =>
    rcases (by simpa using ends : rel = "" ∨ rel.toList.getLast? = some '/') with empty | slash
    · refine ⟨[], ?_, .inr (.inl ?_)⟩
      · rw [empty, String.append_empty, here]
        rfl
      · rw [empty, segments_empty]
        rfl
    · obtain ⟨front, same⟩ := eq_append_slash slash
      have cut := segments_append_slash front ""
      rw [String.append_empty, ← same, segments_empty] at cut
      refine ⟨(ofString front).segments, ?_, .inr (.inl cut)⟩
      rw [same, String.append_assoc, here, segments_append_slash]
  · refine ⟨(ofString rel).segments, ?_, .inl rfl⟩
    rw [String.append_assoc, String.append_assoc, here, ← String.append_assoc,
      segments_append_slash]

theorem resolve_underRelative (l : Location) (rel : String) {name : String} (h : PlainName name) :
    resolve l (underRelative rel name) = resolve l rel ++ [name] := by
  obtain ⟨front, segments, led⟩ := segments_underRelative rel name
  have stay (m : Location) : follow m "." = m ∧ follow m "" = m := by simp [follow]
  have along : front.foldl follow l = resolve l rel := by
    rw [resolve]
    rcases led with same | cut | ⟨dot, none⟩
    · rw [same]
    · rw [cut, List.foldl_append, List.foldl_cons, (stay _).2]
      rfl
    · rw [dot, none, segments_dot, List.foldl_cons, (stay l).1]
  rw [resolve, segments, segments_of_no_slash h.no_slash, List.foldl_cons, (stay l).1,
    List.foldl_append, along, List.foldl_cons, follow_plain h]
  rfl

theorem underRelative_not_absolute (rel name : String) :
    (ofString (underRelative rel name)).isAbsolute = false := by
  have dot (q : String) : (ofString ("./" ++ q)).isAbsolute = false := by
    simp [isAbsolute, ofString]
  unfold underRelative
  split
  · exact dot name
  · split
    · rw [String.append_assoc]
      exact dot _
    · rw [String.append_assoc, String.append_assoc]
      exact dot _

/-- A link target, read in the directory of the link, names the certificate in the authority's
    directory under both styles, and never starts at the root. -/
theorem linkTarget_resolves (style : LinkStyle) (cwd : Location) (leafDir caDir : Path)
    {certName : String} (h : PlainName certName) :
    resolve (leafDir.absolutize cwd).steps (linkTarget style cwd leafDir caDir certName) =
        (caDir.absolutize cwd).steps ++ [certName] ∧
      (ofString (linkTarget style cwd leafDir caDir certName)).isAbsolute = false := by
  rw [steps_absolutize, steps_absolutize, linkTarget]
  refine ⟨?_, underRelative_not_absolute _ _⟩
  rw [resolve_underRelative _ _ h, resolve_relative]

/-- From the root itself, whose text has two empty segments, to a directory written with dots and
    doubled slashes. -/
theorem linkTarget_resolves_from_root :
    PlainName "rootCA.pem" ∧
      resolve ((⟨"/"⟩ : Path).absolutize ["net"]).steps
          (linkTarget .legacy ["net"] ⟨"/"⟩ ⟨"env/.././CA//"⟩ "rootCA.pem") =
        ["net", "CA", "rootCA.pem"] ∧
      (ofString (linkTarget .legacy ["net"] ⟨"/"⟩ ⟨"env/.././CA//"⟩ "rootCA.pem")).isAbsolute =
        false := by
  have plain : PlainName "rootCA.pem" := ⟨by decide, by decide, by decide, by decide⟩
  obtain ⟨reached, relative⟩ := linkTarget_resolves .legacy ["net"] ⟨"/"⟩ ⟨"env/.././CA//"⟩ plain
  exact ⟨plain, reached.trans (by decide +kernel), relative⟩

end NetworkCa.Path
