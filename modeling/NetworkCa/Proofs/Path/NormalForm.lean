import NetworkCa.Proofs.FileTree.Seats
import NetworkCa.Proofs.Signing.Work
import NetworkCa.Proofs.Text.Split

namespace NetworkCa

namespace Path

variable {cwd l : Location} {p q : Path}

/-- A path from the root on, with one slash before each name and nothing else: no segment of it is
    empty, a dot or a double dot. -/
structure Normal (p : Path) : Prop where
  absolute : p.isAbsolute = true
  spelled : p.text = "/" ++ "/".intercalate p.steps
  plain : ∀ s ∈ p.steps, PlainName s

theorem isAbsolute_path (l : Location) : l.path.isAbsolute = true := by
  simp [Location.path, isAbsolute]

theorem normal_path (plain : ∀ s ∈ l, PlainName s) : Normal l.path := by
  have steps := steps_path plain
  exact ⟨isAbsolute_path l, by rw [steps]; rfl, by rwa [steps]⟩

theorem absolute_path (plain : ∀ s ∈ l, PlainName s) (cwd : Location) :
    l.path.absolute cwd = l := by
  rw [absolute_eq_follow, if_pos (isAbsolute_path l), steps_path plain, foldl_follow_names plain]
  rfl

theorem absolute_absolutize (cwd cwd' : Location) (p : Path) :
    (p.absolutize cwd).absolute cwd' = p.absolute cwd :=
  absolute_path (fun _ => plainName_of_mem_absolute) cwd'

theorem absolute_join_absolutize (cwd : Location) (p q : Path) :
    ((p.absolutize cwd).join q).absolute cwd = (p.join q).absolute cwd := by
  by_cases rooted : q.isAbsolute = true
  · rw [join, if_pos rooted, join, if_pos rooted]
  · have relative : q.isAbsolute = false := by simpa using rooted
    rw [absolute_join cwd _ relative, absolute_join cwd _ relative, absolute_absolutize]

/-- What a path weighs: the bytes of its names, each with the slash before it. -/
def weight (names : List String) : Nat := names.foldr (fun s n => s.utf8ByteSize + 1 + n) 0

theorem weight_cons (s : String) (names : List String) :
    weight (s :: names) = s.utf8ByteSize + 1 + weight names := rfl

theorem weight_le_of_sublist {names names' : List String} (sub : names.Sublist names') :
    weight names ≤ weight names' := by
  induction sub with
  | slnil => exact Nat.le_refl _
  | cons s _ ih => rw [weight_cons]; omega
  | cons_cons s _ ih => rw [weight_cons, weight_cons]; omega

theorem utf8ByteSize_intercalate (s : String) (rest : List String) :
    ("/".intercalate (s :: rest)).utf8ByteSize = s.utf8ByteSize + weight rest := by
  induction rest generalizing s with
  | nil => rw [String.intercalate_singleton]; rfl
  | cons r rest ih =>
    have slash : "/".utf8ByteSize = 1 := by decide
    rw [String.intercalate_cons_cons, String.utf8ByteSize_append, String.utf8ByteSize_append, ih,
      slash, weight_cons]
    omega

theorem utf8ByteSize_path (l : Location) : l.path.text.utf8ByteSize = max 1 (weight l) := by
  have slash : "/".utf8ByteSize = 1 := by decide
  rw [Location.path, String.utf8ByteSize_append, slash]
  cases l with
  | nil => rfl
  | cons s rest =>
    rw [utf8ByteSize_intercalate, weight_cons]
    omega

theorem segments_nonempty (p : Path) : p.segments ≠ [] := by
  simp [segments, Text.splitOn_ne_nil]

theorem intercalate_segments (p : Path) : "/".intercalate p.segments = p.text := by
  have slash : "/".toList = ['/'] := by decide
  have whole : (p.segments.map String.toList) = p.text.toList.splitOn '/' := by
    simp [segments, Text.splitOn_eq]
  rw [← String.toList_inj, String.toList_intercalate, slash, whole, List.intercalate_splitOn]

theorem weight_steps_le (absolute : p.isAbsolute = true) :
    weight p.steps ≤ p.text.utf8ByteSize := by
  obtain ⟨r, text⟩ : ∃ r, p.text = "" ++ "/" ++ r := by
    obtain ⟨rest, chars⟩ := List.head?_eq_some_iff.1 (by simpa [isAbsolute] using absolute)
    exact ⟨String.ofList rest, by rw [← String.toList_inj, chars]; simp⟩
  have cut : p.segments = "" :: (ofString r).segments := by
    have front := segments_append_slash "" r
    rw [segments_empty, ← text] at front
    exact front
  have size : p.text.utf8ByteSize = weight (ofString r).segments := by
    have slash : "/".utf8ByteSize = 1 := by decide
    obtain ⟨s, rest, some⟩ := List.exists_cons_of_ne_nil ((ofString r).segments_nonempty)
    have whole := utf8ByteSize_intercalate s rest
    rw [← some, intercalate_segments] at whole
    rw [text, String.utf8ByteSize_append, String.utf8ByteSize_append, slash, some, weight_cons]
    change 0 + 1 + (ofString r).text.utf8ByteSize = _
    omega
  rw [size, steps, cut, List.filter_cons_of_neg (by simp)]
  exact weight_le_of_sublist List.filter_sublist

theorem foldl_follow_sublist (names : List String) (l : Location) :
    (names.foldl follow l).Sublist (l ++ names) := by
  induction names generalizing l with
  | nil => simp
  | cons s names ih =>
    have here : (follow l s).Sublist (l ++ [s]) := by
      rw [follow]
      split
      · exact List.sublist_append_left l [s]
      split
      · exact (List.dropLast_sublist l).trans (List.sublist_append_left l [s])
      · exact List.Sublist.refl _
    have onward := (ih (follow l s)).trans (here.append_right names)
    rwa [List.append_assoc, List.singleton_append] at onward

theorem isAbsolute_fromRoot (cwd : Location) (p : Path) : (cwd.path.join p).isAbsolute = true := by
  by_cases rooted : p.isAbsolute = true
  · rwa [join, if_pos rooted]
  · rw [isAbsolute_join _ (by simpa using rooted), isAbsolute_path]

theorem absolute_eq_fromRoot (cwd : Location) (p : Path) :
    p.absolute cwd = (cwd.path.join p).steps.foldl follow [] :=
  foldl_components (isAbsolute_fromRoot cwd p)

theorem absolute_sublist (cwd : Location) (p : Path) :
    (p.absolute cwd).Sublist (cwd.path.join p).steps := by
  rw [absolute_eq_fromRoot]
  exact foldl_follow_sublist _ []

theorem mem_text_of_mem_steps {s : String} {c : Char} (hs : s ∈ p.steps) (hc : c ∈ s.toList) :
    c ∈ p.text.toList := by
  obtain ⟨piece, member, rfl⟩ := List.mem_map.1 (List.mem_filter.1 hs).1
  exact Text.mem_of_mem_splitOn member (by simpa using hc)

theorem mem_intercalate {names : List String} {c : Char}
    (hc : c ∈ ("/".intercalate names).toList) : c = '/' ∨ ∃ s ∈ names, c ∈ s.toList := by
  induction names with
  | nil => simp at hc
  | cons s names ih =>
    cases names with
    | nil => exact .inr ⟨s, by simp, by simpa using hc⟩
    | cons r more =>
      rw [String.intercalate_cons_cons, String.toList_append, String.toList_append] at hc
      rcases List.mem_append.1 hc with hc | hc
      · rcases List.mem_append.1 hc with hc | hc
        · exact .inr ⟨s, by simp, hc⟩
        · exact .inl (by simpa using hc)
      · exact (ih hc).imp_right fun ⟨s, hs, here⟩ => ⟨s, List.mem_cons_of_mem _ hs, here⟩

/-- The texts that a lookup goes along. All others are refused unread. -/
structure Acceptable (p : Path) : Prop where
  no_nul : '\x00' ∉ p.text.toList
  ne_empty : p.text ≠ ""
  short : p.text.utf8ByteSize < FileTree.pathLimit

theorem text_ne_empty_of_absolute (absolute : p.isAbsolute = true) : p.text ≠ "" := by
  intro empty
  rw [isAbsolute, empty] at absolute
  cases absolute

theorem acceptable_absolutize (h : Acceptable (cwd.path.join p)) :
    Acceptable (p.absolutize cwd) := by
  have names := absolute_sublist cwd p
  refine ⟨fun nul => ?_, text_ne_empty_of_absolute (isAbsolute_path _), ?_⟩
  · rw [absolutize, Location.path, String.toList_append] at nul
    rcases List.mem_append.1 nul with slash | nul
    · simp at slash
    · rcases mem_intercalate nul with slash | ⟨s, hs, here⟩
      · cases slash
      · exact h.no_nul (mem_text_of_mem_steps (names.subset hs) here)
  · have light := weight_le_of_sublist names
    have size := weight_steps_le (isAbsolute_fromRoot cwd p)
    have some : (cwd.path.join p).text.utf8ByteSize ≠ 0 := by
      rw [ne_eq, String.utf8ByteSize_eq_zero_iff]
      exact text_ne_empty_of_absolute (isAbsolute_fromRoot cwd p)
    have limit := h.short
    rw [absolutize, utf8ByteSize_path]
    omega

end Path

namespace FileTree

variable {t : FileTree} {p : Path} {here l : Location} {name : String} {spot : Spot}

def NamesDirectory (t : FileTree) (p : Path) (l : Location) : Prop :=
  ∀ purpose, purpose ≠ .write → t.lookup purpose p = .ok (.taken l .directory p.endsInSlash)

def WalksToDirectory (t : FileTree) (p : Path) (l : Location) : Prop :=
  ∀ purpose links, purpose ≠ .write →
    t.walk purpose links (t.start p) p.steps p.endsInSlash =
      .ok (.taken l .directory p.endsInSlash)

theorem lookup_of_acceptable (h : p.Acceptable) (purpose : Purpose) :
    t.lookup purpose p = t.walk purpose maxLinks (t.start p) p.steps p.endsInSlash := by
  rw [lookup, if_neg (by simpa using h.no_nul), if_neg (by simpa using h.ne_empty),
    if_neg (Nat.not_le.2 h.short), start]

theorem acceptable_of_lookup_ok {purpose : Purpose} (h : t.lookup purpose p = .ok spot) :
    p.Acceptable := by
  rw [lookup] at h
  split at h; · cases h
  next nul =>
  split at h; · cases h
  next some =>
  split at h; · cases h
  next short => exact ⟨by simpa using nul, by simpa using some, Nat.not_le.1 short⟩

theorem paved_of_inspect (nonempty : name ≠ "") {links : Nat} {ending : Bool}
    (h : t.walk .inspect links here [name] false = .ok (.taken l .directory ending)) :
    t.Paved here [name] := by
  rcases move_cases t .inspect here name [] false with
    special | ⟨failure, _, _, step⟩ | ⟨plain, accepted, step⟩
  · refine paved_cons.2 ⟨⟨nonempty, ?_⟩, by simp [looksAt, special], paved_nil⟩
    rcases special with rfl | rfl <;> decide
  · rw [walk_halt step] at h
    cases h
  · have short : name.utf8ByteSize ≤ maxName := by simpa [refusal?] using accepted
    refine paved_cons.2 ⟨⟨nonempty, short⟩, ?_, paved_nil⟩
    have halts : t.move .inspect here name [] false =
        .halt (arrive .inspect (here ++ [name]) false (t.get? (here ++ [name]))) := by
      rw [step]
      rcases t.get? (here ++ [name]) with _ | _ | _ | _ <;> rfl
    rw [walk_halt halts] at h
    have entry : some .directory = t.get? (here ++ [name]) := (arrive_ok h).2.1
    simpa [looksAt, plain] using entry.symm

theorem cut_of_mem_steps {s : String} (h : s ∈ p.steps) : s ≠ "" ∧ '/' ∉ s.toList :=
  ⟨ne_empty_of_mem_steps h, Path.no_slash_of_mem_segments (List.mem_filter.1 h).1⟩

theorem intercalate_concat (front : List String) (name : String) :
    ∃ text, "/".intercalate (front ++ [name]) = text ++ name := by
  induction front with
  | nil => exact ⟨"", by simp⟩
  | cons s front ih =>
    obtain ⟨text, same⟩ := ih
    have some : front ++ [name] ≠ [] := by simp
    refine ⟨s ++ "/" ++ text, ?_⟩
    rw [List.cons_append, String.intercalate_cons_of_ne_nil some, same, String.append_assoc,
      String.append_assoc, String.append_assoc]

theorem way_spelled (p : Path) {front : List String}
    (cut : ∀ s ∈ front ++ [name], s ≠ "" ∧ '/' ∉ s.toList) :
    let way : Path := ⟨(if p.isAbsolute then "/" else "") ++ "/".intercalate (front ++ [name])⟩
    way.isAbsolute = p.isAbsolute ∧ way.steps = front ++ [name] ∧ way.endsInSlash = false := by
  have apart : ∀ s ∈ front ++ [name], '/' ∉ s.toList := fun s hs => (cut s hs).2
  have named : (front ++ [name]).filter (· ≠ "") = front ++ [name] :=
    List.filter_eq_self.2 fun s hs => by simpa using (cut s hs).1
  have segments := Path.segments_intercalate (by simp) apart
  obtain ⟨nonempty, uncut⟩ := cut name (by simp)
  obtain ⟨text, same⟩ := intercalate_concat front name
  by_cases rooted : p.isAbsolute = true
  · have whole := Path.segments_append_slash "" ("/".intercalate (front ++ [name]))
    rw [segments, Path.segments_empty] at whole
    rw [if_pos rooted, rooted]
    refine ⟨by simp [Path.isAbsolute], ?_, ?_⟩
    · rw [Path.steps]
      change (Path.ofString ("" ++ "/" ++ _)).segments.filter _ = _
      rw [whole, List.singleton_append, List.filter_cons_of_neg (by simp), named]
    · rw [same, ← String.append_assoc]
      exact Path.endsInSlash_append _ nonempty uncut
  · have relative : p.isAbsolute = false := by simpa using rooted
    rw [if_neg rooted, relative, String.empty_append]
    refine ⟨Path.isAbsolute_intercalate cut, ?_, ?_⟩
    · rw [Path.steps]
      change (Path.ofString _).segments.filter _ = _
      rw [segments, named]
    · rw [same]
      exact Path.endsInSlash_append _ nonempty uncut

theorem exists_way {k : Nat} (inside : k < p.steps.length) :
    ∃ way ∈ ways p, way.isAbsolute = p.isAbsolute ∧
      way.steps = p.steps.take k ++ [p.steps[k]] ∧ way.endsInSlash = false := by
  have split := List.take_succ_eq_append_getElem inside
  have cut : ∀ s ∈ p.steps.take k ++ [p.steps[k]], s ≠ "" ∧ '/' ∉ s.toList := by
    rw [← split]
    exact fun s hs => cut_of_mem_steps (List.mem_of_mem_take hs)
  have spelled := way_spelled p cut
  rw [← split] at spelled ⊢
  exact ⟨_, List.mem_map_of_mem (List.mem_range.2 inside), spelled⟩

theorem paved_of_ways (directories : ∀ way ∈ ways p, t.entryAt way = .ok .directory) :
    t.Paved (t.start p) p.steps := by
  have upTo (k : Nat) : t.Paved (t.start p) (p.steps.take k) := by
    induction k with
    | zero => exact paved_nil
    | succ k ih =>
      by_cases inside : k < p.steps.length
      · obtain ⟨way, member, rooted, steps, unslashed⟩ := exists_way inside
        obtain ⟨place, ending, looked⟩ := entryAt_eq_ok.1 (directories way member)
        have start : t.start way = t.start p := by rw [FileTree.start, rooted, FileTree.start]
        rw [walk_of_lookup_ok looked, start, steps, unslashed, walk_paved ih (by simp)] at looked
        have nonempty := ne_empty_of_mem_steps (List.getElem_mem inside)
        rw [List.take_succ_eq_append_getElem inside]
        exact ih.append (paved_of_inspect nonempty looked)
      · rw [List.take_of_length_le (by omega)]
        rwa [List.take_of_length_le (by omega)] at ih
  have whole := upTo p.steps.length
  rwa [List.take_length] at whole

/-- A path without links on its way and the same path collapsed lead to one directory. -/
theorem walksToDirectory_absolutize (cwd : t.Seated t.cwd) (paved : t.Paved (t.start p) p.steps) :
    t.WalksToDirectory p (t.site p) ∧ t.WalksToDirectory (p.absolutize t.cwd) (t.site p) := by
  have start : t.Seated (t.start p) := by
    rw [FileTree.start]
    split
    · exact seated_root t
    · exact cwd
  have seated : t.Seated (t.site p) :=
    start.onward paved fun s hs => (cut_of_mem_steps hs).2
  have absolute : p.absolute t.cwd = t.site p :=
    absolute_eq_site (fun s hs => (cwd.names s hs).1) p
  have straight : t.Paved [] (t.site p) := seated.paved
  refine ⟨fun purpose links reading => walk_paved_end paved reading,
    fun purpose links reading => ?_⟩
  rw [FileTree.start, Path.absolutize, if_pos (Path.isAbsolute_path _), absolute,
    Path.steps_path fun s hs => (seated.names s hs).1, walk_paved_end straight reading,
    Path.foldl_follow_names fun s hs => (seated.names s hs).1, List.nil_append]

end FileTree

namespace Path

/-- Collapsing a path gives its normal form: collapsing that again, or from elsewhere, changes
    nothing, any path may be put behind either, and above the root there is the root again. Where
    every beginning of the path names a directory that is no link, both lead to the same directory.
    No text leads there if it is longer than any path may be, as only that of a path which was put
    behind the working directory can have become. -/
theorem absolutize_normalizes (cwd : Location) (p : Path) :
    Normal (p.absolutize cwd) ∧
    (∀ cwd', (p.absolutize cwd).absolutize cwd' = p.absolutize cwd) ∧
    (∀ q, ((p.absolutize cwd).join q).absolutize cwd = (p.join q).absolutize cwd) ∧
    (p.absolutize cwd = ⟨"/"⟩ → (p.join ⟨".."⟩).absolutize cwd = ⟨"/"⟩) ∧
    ∀ t : FileTree, t.cwd = cwd → t.Seated cwd →
      (∀ way ∈ p :: FileTree.ways p, t.entryAt way = .ok .directory) →
      ∃ l, t.WalksToDirectory p l ∧ t.WalksToDirectory (p.absolutize cwd) l ∧
        t.NamesDirectory p l ∧
        (p.isAbsolute = true ∨ Acceptable (cwd.path.join p) →
          t.NamesDirectory (p.absolutize cwd) l) := by
  refine ⟨normal_path fun _ => plainName_of_mem_absolute,
    fun cwd' => congrArg Location.path (absolute_absolutize cwd cwd' p),
    fun q => congrArg Location.path (absolute_join_absolutize cwd p q), fun root => ?_, ?_⟩
  · have top : p.absolute cwd = [] := by
      rw [← steps_absolutize, root]
      decide +kernel
    have up : (⟨".."⟩ : Path).steps = [".."] := steps_of_no_slash (by decide) (by decide)
    rw [absolutize, absolute_join cwd p (by decide), top, up]
    rfl
  · rintro t rfl seated directories
    obtain ⟨here, ways⟩ := List.forall_mem_cons.1 directories
    obtain ⟨walked, walked'⟩ := FileTree.walksToDirectory_absolutize seated
      (FileTree.paved_of_ways ways)
    obtain ⟨place, ending, looked⟩ := FileTree.entryAt_eq_ok.1 here
    refine ⟨t.site p, walked, walked', fun purpose reading => ?_, fun fits purpose reading => ?_⟩
    · rw [FileTree.walk_of_lookup_ok looked]
      exact walked purpose _ reading
    · have whole : Acceptable (t.cwd.path.join p) := by
        rcases fits with rooted | whole
        · rw [join, if_pos rooted]
          exact FileTree.acceptable_of_lookup_ok looked
        · exact whole
      rw [FileTree.lookup_of_acceptable (acceptable_absolutize whole)]
      exact walked' purpose _ reading

/-- Up past the root and down again, with dots and doubled slashes. -/
theorem absolutize_normalizes_of_dots :
    let t : FileTree := ⟨[(["net"], .directory), (["net", "CA"], .directory)], ["net"]⟩
    t.Seated t.cwd ∧
      (∀ way ∈ ⟨".././../net//CA/"⟩ :: FileTree.ways ⟨".././../net//CA/"⟩,
        t.entryAt way = .ok .directory) ∧
      Acceptable (t.cwd.path.join ⟨".././../net//CA/"⟩) ∧
      (⟨".././../net//CA/"⟩ : Path).absolutize t.cwd = ⟨"/net/CA"⟩ ∧
      t.NamesDirectory ⟨".././../net//CA/"⟩ ["net", "CA"] ∧
      t.NamesDirectory ⟨"/net/CA"⟩ ["net", "CA"] := by
  intro t
  have seated : t.Seated t.cwd := by
    refine ⟨fun s hs => ?_, fun k => ?_⟩
    · obtain rfl : s = "net" := by simpa [t] using hs
      exact ⟨⟨by decide, by decide, by decide, by decide⟩, by decide⟩
    · rcases k with _ | k <;> simp [t, FileTree.get?]
  have directories : ∀ way ∈ ⟨".././../net//CA/"⟩ :: FileTree.ways ⟨".././../net//CA/"⟩,
      t.entryAt way = .ok .directory := by decide +kernel
  have fits : Acceptable (t.cwd.path.join ⟨".././../net//CA/"⟩) :=
    ⟨by decide +kernel, by decide +kernel, by decide +kernel⟩
  have collapsed : (⟨".././../net//CA/"⟩ : Path).absolutize t.cwd = ⟨"/net/CA"⟩ := by decide +kernel
  obtain ⟨-, -, -, -, tree⟩ := absolutize_normalizes t.cwd ⟨".././../net//CA/"⟩
  obtain ⟨l, -, -, named, named'⟩ := tree t rfl seated directories
  have there : t.lookup .reach ⟨".././../net//CA/"⟩ =
      .ok (.taken ["net", "CA"] .directory true) := by
    decide +kernel
  obtain rfl : l = ["net", "CA"] := by
    have same := (named .reach (by decide)).symm.trans there
    simp only [Except.ok.injEq, FileTree.Spot.taken.injEq] at same
    exact same.1
  rw [collapsed] at named'
  exact ⟨seated, directories, fits, collapsed, named, named' (.inr fits)⟩

end Path

end NetworkCa
