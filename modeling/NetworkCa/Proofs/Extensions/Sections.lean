import NetworkCa.Proofs.Extensions.Lines
import NetworkCa.Proofs.Extensions.Meaning

namespace NetworkCa.LeafExtensions

open Text (trim isBlank before splitOnce_append)

def namesKey : List Char := "subjectAltName".toList

structure Plain (p : List Char × List Char) : Prop where
  solid : ∀ c ∈ p.1, isBlank c = false
  kind : ∀ c ∈ [':', '.', '=', ',', '#', '@', '['], c ∉ p.1
  trimmed : trim p.2 = p.2
  value : ',' ∉ p.2 ∧ '#' ∉ p.2

def asToken (p : List Char × List Char) : List Char := p.1 ++ ':' :: p.2

inductive Lists : List (List Char × List Char) → List Char → Prop
  | last {p : List Char × List Char} {piece : List Char} :
    Padded (asToken p) piece → Lists [p] piece
  | more {p : List Char × List Char} {piece w : List Char} {pairs : List (List Char × List Char)} :
    Padded (asToken p) piece → Lists pairs w → Lists (p :: pairs) (piece ++ ',' :: w)

def namesOf (pairs : List (List Char × List Char)) : Except ExtensionError (List AltName) :=
  pairs.mapM fun p => altName p.1 p.2

def Uses (s : List Char) (e : Setting) : Prop :=
  e.heading = [] ∧ e.key = namesKey ∧ ('@' :: s ∈ tokens e.value ∨ ['@'] ∈ tokens e.value)

/-- The lines of two files of which one lists pairs as `w` and the other one has them in a section
    `s`. The sections that a line of the one and of the other is in come first. -/
inductive Sectioned (s w : List Char) : List Char → List Char → List (List Char × List Char) →
    List (List Char) → List (List Char) → Prop
  | done {h h' : List Char} : Sectioned s w h h' [] [] []
  | shared {h raw : List Char} {ps : List (List Char × List Char)} {ls ls' : List (List Char)} :
    (∀ name, Line.read raw ≠ .header name) →
    (∀ key value, Line.read raw = .setting key value → ¬Uses s ⟨h, key, value⟩) →
    Sectioned s w h h ps ls ls' → Sectioned s w h h ps (raw :: ls) (raw :: ls')
  | names {raw raw' : List Char} {ps : List (List Char × List Char)} {ls ls' : List (List Char)} :
    Writes (.setting namesKey w) raw → Writes (.setting namesKey ('@' :: s)) raw' →
    Sectioned s w [] [] ps ls ls' → Sectioned s w [] [] ps (raw :: ls) (raw' :: ls')
  | header {h h' name raw : List Char} {ps : List (List Char × List Char)}
    {ls ls' : List (List Char)} :
    Line.read raw = .header name → name ≠ s → Sectioned s w name name ps ls ls' →
    Sectioned s w h h' ps (raw :: ls) (raw :: ls')
  | opened {h h' raw : List Char} {ps : List (List Char × List Char)} {ls ls' : List (List Char)} :
    Writes (.header s) raw → Sectioned s w h s ps ls ls' → Sectioned s w h h' ps ls (raw :: ls')
  | entry {h raw : List Char} {n : Nat} {p : List Char × List Char}
    {ps : List (List Char × List Char)} {ls ls' : List (List Char)} :
    Writes (.setting (p.1 ++ '.' :: (toString n).toList) p.2) raw → Sectioned s w h s ps ls ls' →
    Sectioned s w h s (p :: ps) ls (raw :: ls')
  | closed {h h' raw : List Char} {ps : List (List Char × List Char)} {ls ls' : List (List Char)} :
    Writes (.header h) raw → Sectioned s w h h ps ls ls' → Sectioned s w h h' ps ls (raw :: ls')
  | blank {h h' raw : List Char} {ps : List (List Char × List Char)} {ls ls' : List (List Char)} :
    Writes .blank raw → Sectioned s w h h' ps ls ls' → Sectioned s w h h' ps (raw :: ls) ls'
  | blank' {h h' raw : List Char} {ps : List (List Char × List Char)} {ls ls' : List (List Char)} :
    Writes .blank raw → Sectioned s w h h' ps ls ls' → Sectioned s w h h' ps ls (raw :: ls')

structure IsToken (t : List Char) : Prop where
  trimmed : trim t = t
  comma : ',' ∉ t
  full : t ≠ []
  unmarked : t ≠ "critical".toList

section Tokens

variable {p : List Char × List Char} {pairs : List (List Char × List Char)}
  {t piece w s : List Char} {all : List Setting}

theorem IsToken.kept (token : IsToken t) :
    (!t.isEmpty && decide (t ≠ "critical".toList)) = true := by
  rw [Bool.and_eq_true, decide_eq_true_iff, Bool.not_eq_true', List.isEmpty_eq_false_iff]
  exact ⟨token.full, token.unmarked⟩

theorem tokens_of_padded (token : IsToken t) (padded : Padded t piece) : tokens piece = [t] := by
  have uncut := List.splitOn_eq_singleton (padded.notMem rfl token.comma)
  rw [tokens, Text.splitOn_eq, uncut, List.map_singleton, padded.trim token.trimmed,
    List.filter_cons, if_pos token.kept, List.filter_nil]

theorem tokens_of_padded_append (token : IsToken t) (padded : Padded t piece) (w : List Char) :
    tokens (piece ++ ',' :: w) = t :: tokens w := by
  have cut := List.splitOn_append_cons_self_of_not_mem (padded.notMem rfl token.comma) w
  rw [tokens, Text.splitOn_eq, cut, List.map_cons, padded.trim token.trimmed,
    List.filter_cons, if_pos token.kept, tokens, Text.splitOn_eq]

theorem Plain.isToken (plain : Plain p) : IsToken (asToken p) where
  trimmed := by
    have start := Text.trimStart_of_trim (Text.trim_of_solid plain.solid)
    rw [asToken, Text.trim_append_cons rfl, start, Text.trimEnd_of_trim plain.trimmed]
  comma := by simp [asToken, plain.kind ',', plain.value.1]
  full := by simp [asToken]
  unmarked := by
    intro same
    have colon : ':' ∈ asToken p := by simp [asToken]
    simp [same] at colon

theorem Lists.ne_nil (lists : Lists pairs w) : pairs ≠ [] := by
  cases lists <;> exact List.cons_ne_nil _ _

theorem Lists.tokens_eq (lists : Lists pairs w) (plain : ∀ p ∈ pairs, Plain p) :
    tokens w = pairs.map asToken := by
  induction lists with
  | last padded => exact tokens_of_padded (plain _ List.mem_cons_self).isToken padded
  | more padded _ ih =>
    rw [tokens_of_padded_append (plain _ List.mem_cons_self).isToken padded,
      ih fun p later => plain p (List.mem_cons_of_mem _ later), List.map_cons]

theorem altNamesOf_asToken (plain : Plain p) :
    altNamesOf all (asToken p) = (altName p.1 p.2).map ([·]) := by
  have unreferenced : Text.dropPrefix? ['@'] (asToken p) = none := by
    rw [Option.eq_none_iff_forall_ne_some]
    intro rest reference
    have front := congrArg List.head? (Text.dropPrefix?_eq_some.1 reference)
    have absent : p.1.head? ≠ some '@' := fun first =>
      plain.kind '@' (by simp) (List.mem_of_head? first)
    rw [asToken, List.head?_append] at front
    rcases first : p.1.head? with _ | c <;> simp_all
  rw [altNamesOf, unreferenced, asToken, splitOnce_append (plain.kind ':' (by simp))]

theorem mapM_singletons {α β : Type} (read : β → Except ExtensionError α) (ts : List β) :
    (ts.mapM fun t => (read t).map ([·])).map List.flatten = ts.mapM read := by
  induction ts with
  | nil => rfl
  | cons t rest ih =>
    rw [List.mapM_cons, List.mapM_cons, ← ih]
    rcases read t with fault | a
    · rfl
    · rcases rest.mapM fun t => (read t).map ([·]) with fault | as <;> rfl

theorem Lists.names_eq (lists : Lists pairs w) (plain : ∀ p ∈ pairs, Plain p) :
    ((tokens w).mapM (altNamesOf all)).map List.flatten = namesOf pairs := by
  rw [lists.tokens_eq plain, namesOf,
    ← mapM_singletons fun p : List Char × List Char => altName p.1 p.2, List.mapM_map]
  exact congrArg _ (mapM_congr fun p member => altNamesOf_asToken (plain p member))

theorem names_of_section (token : IsToken ('@' :: s)) (full : pairs ≠ [])
    (own : (all.filter (·.heading = s)).map (fun e => (before '.' e.key, e.value)) = pairs) :
    ((tokens ('@' :: s)).mapM (altNamesOf all)).map List.flatten = namesOf pairs := by
  have found : Text.dropPrefix? ['@'] ('@' :: s) = some s := Text.dropPrefix?_eq_some.2 rfl
  have named : altNamesOf all ('@' :: s) = namesOf pairs := by
    rw [altNamesOf, found]
    dsimp only
    split
    · next none =>
      rw [none] at own
      exact absurd own.symm full
    · rw [namesOf, ← own, List.mapM_map]
      rfl
  rw [tokens_of_padded token (.refl _), List.mapM_cons, named]
  rcases namesOf pairs with fault | names
  · rfl
  · exact congrArg Except.ok (List.append_nil names)

end Tokens

section Settings

variable {s w heading heading' : List Char} {e e' : Setting} {p : List Char × List Char}
  {pairs pairs' : List (List Char × List Char)} {all all' : List Setting}
  {ls ls' : List (List Char)}

def Stands (s w : List Char) (e e' : Setting) : Prop :=
  (e' = e ∧ ¬Uses s e) ∨ (e = ⟨[], namesKey, w⟩ ∧ e' = ⟨[], namesKey, '@' :: s⟩)

structure Alike (s w : List Char) (pairs : List (List Char × List Char))
    (all all' : List Setting) : Prop where
  own : (all'.filter (·.heading = s)).map (fun e => (before '.' e.key, e.value)) = pairs
  others : List.Forall₂ (Stands s w) all (all'.filter (·.heading ≠ s))

theorem Alike.cons (alike : Alike s w pairs all all') (stands : Stands s w e e')
    (other : e'.heading ≠ s) : Alike s w pairs (e :: all) (e' :: all') where
  own := by
    rw [List.filter_cons_of_neg (by simpa using other)]
    exact alike.own
  others := by
    rw [List.filter_cons_of_pos (by simpa using other)]
    exact .cons stands alike.others

theorem Alike.entry (alike : Alike s w pairs all all') (mine : e.heading = s)
    (spells : (before '.' e.key, e.value) = p) : Alike s w (p :: pairs) all (e :: all') where
  own := by
    rw [List.filter_cons_of_pos (by simpa using mine), List.map_cons, spells, alike.own]
  others := by
    rw [List.filter_cons_of_neg (by simpa using mine)]
    exact alike.others

/-- Either both files are read, or both have the same first bad line. -/
inductive Alongside (s w : List Char) (pairs : List (List Char × List Char)) :
    Except ExtensionError (List Setting) → Except ExtensionError (List Setting) → Prop
  | read {all all' : List Setting} :
    Alike s w pairs all all' → Alongside s w pairs (.ok all) (.ok all')
  | bad (number number' : Nat) (text : String) :
    Alongside s w pairs (.error (.badLine number text)) (.error (.badLine number' text))

theorem Alongside.map {r r' : Except ExtensionError (List Setting)}
    {f g : List Setting → List Setting} (alongside : Alongside s w pairs r r')
    (step : ∀ all all', Alike s w pairs all all' → Alike s w pairs' (f all) (g all')) :
    Alongside s w pairs' (r.map f) (r'.map g) := by
  cases alongside with
  | read alike => exact .read (step _ _ alike)
  | bad number number' text => exact .bad number number' text

theorem before_dot (absent : '.' ∉ p.1) (number : List Char) :
    before '.' (p.1 ++ '.' :: number) = p.1 := by
  rw [Text.before_append_cons, Text.before_of_notMem absent]

theorem Sectioned.settings (sectioned : Sectioned s w heading heading' pairs ls ls')
    (named : s ≠ []) (plain : ∀ p ∈ pairs, Plain p) (other : heading ≠ s) (number number' : Nat) :
    Alongside s w pairs (settings heading number ls) (settings heading' number' ls') := by
  induction sectioned generalizing number number' with
  | done => exact .read ⟨rfl, .nil⟩
  | @shared h raw ps ls ls' headerless unused _ ih =>
    rcases line : Line.read raw with _ | name | ⟨key, value⟩ | _
    · simp only [LeafExtensions.settings, line]
      exact ih plain other _ _
    · exact absurd line (headerless name)
    · simp only [LeafExtensions.settings, line]
      exact (ih plain other _ _).map fun _ _ alike =>
        alike.cons (.inl ⟨rfl, unused key value line⟩) other
    · simp only [LeafExtensions.settings, line]
      exact .bad _ _ _
  | names listed referring _ ih =>
    simp only [LeafExtensions.settings, listed.read, referring.read]
    exact (ih plain other _ _).map fun _ _ alike => alike.cons (.inr ⟨rfl, rfl⟩) named.symm
  | header line apart _ ih =>
    simp only [LeafExtensions.settings, line]
    exact ih plain apart _ _
  | opened line _ ih =>
    simp only [LeafExtensions.settings, line.read]
    exact ih plain other _ _
  | @entry h raw n p ps ls ls' line _ ih =>
    have dotless : '.' ∉ p.1 := (plain p List.mem_cons_self).kind '.' (by simp)
    simp only [LeafExtensions.settings, line.read]
    have step := (ih (fun p later => plain p (List.mem_cons_of_mem _ later)) other number
      (number' + 1)).map (f := id) (g := (⟨s, p.1 ++ '.' :: (toString n).toList, p.2⟩ :: ·))
      fun _ _ alike => alike.entry rfl (Prod.ext (before_dot dotless _) rfl)
    rwa [Except.map_id] at step
  | closed line _ ih =>
    simp only [LeafExtensions.settings, line.read]
    exact ih plain other _ _
  | blank line _ ih =>
    simp only [LeafExtensions.settings, line.read]
    exact ih plain other _ _
  | blank' line _ ih =>
    simp only [LeafExtensions.settings, line.read]
    exact ih plain other _ _

theorem filter_of_stands {name : List Char} (others : List.Forall₂ (Stands s w) all all')
    (named : name ≠ []) : all.filter (·.heading = name) = all'.filter (·.heading = name) := by
  induction others with
  | nil => rfl
  | cons stands _ ih =>
    rw [List.filter_cons, List.filter_cons, ih]
    rcases stands with ⟨rfl, -⟩ | ⟨rfl, rfl⟩
    · rfl
    · rw [if_neg (by simpa using named.symm), if_neg (by simpa using named.symm)]

theorem Alike.filter_eq {name : List Char} (alike : Alike s w pairs all all') (named : name ≠ [])
    (other : name ≠ s) : all.filter (·.heading = name) = all'.filter (·.heading = name) := by
  rw [filter_of_stands alike.others named, List.filter_filter]
  congr 1
  funext e
  by_cases here : e.heading = name <;> simp [here, other]

theorem ne_of_namesKey (mine : e.key = namesKey) {key : String} (other : "subjectAltName" ≠ key) :
    e.key ≠ key.toList :=
  fun same => other (String.toList_inj.1 (mine.symm.trans same))

theorem apply_of_namesKey (mine : e.key = namesKey) (x : LeafExtensions) :
    apply all x e = (((tokens e.value).mapM (altNamesOf all)).map List.flatten).map
      fun names => { x with altNames := names } := by
  have here : e.key = "subjectAltName".toList := mine
  rw [apply, if_neg (ne_of_namesKey mine (by simp)), if_neg (ne_of_namesKey mine (by simp)),
    if_neg (ne_of_namesKey mine (by simp)), if_pos here]
  cases (tokens e.value).mapM (altNamesOf all) <;> rfl

theorem Alike.apply_eq (alike : Alike s w pairs all all') (token : IsToken ('@' :: s))
    (lists : Lists pairs w) (plain : ∀ p ∈ pairs, Plain p) (stands : Stands s w e e')
    (mine : e.heading = []) (x : LeafExtensions) : apply all x e = apply all' x e' := by
  rcases stands with ⟨rfl, unused⟩ | ⟨rfl, rfl⟩
  · apply apply_congr
    intro key name reference
    apply alike.filter_eq
    · rintro rfl
      exact unused ⟨mine, key, .inr reference⟩
    · rintro rfl
      exact unused ⟨mine, key, .inl reference⟩
  · rw [apply_of_namesKey rfl, apply_of_namesKey rfl, lists.names_eq plain,
      names_of_section token lists.ne_nil alike.own]

theorem Alike.foldlM_eq (alike : Alike s w pairs all all') (named : s ≠ [])
    (token : IsToken ('@' :: s)) (lists : Lists pairs w) (plain : ∀ p ∈ pairs, Plain p)
    (x : LeafExtensions) :
    (unnamed all).foldlM (apply all) x = (unnamed all').foldlM (apply all') x := by
  have unnamed_eq : unnamed all' = unnamed (all'.filter (·.heading ≠ s)) := by
    rw [unnamed, unnamed, List.filter_filter]
    congr 1
    funext e
    by_cases here : e.heading = []
    · simp [here, named.symm]
    · simp [here]
  rw [unnamed_eq]
  -- Along the settings of both files, although sections are looked up in all of them.
  suffices run : ∀ rest rest', List.Forall₂ (Stands s w) rest rest' → ∀ x,
      (unnamed rest).foldlM (apply all) x = (unnamed rest').foldlM (apply all') x from
    run _ _ alike.others x
  intro rest rest' others
  induction others with
  | nil => exact fun x => rfl
  | @cons e e' rest rest' stands _ ih =>
    intro x
    have heading : e'.heading = e.heading := by
      rcases stands with ⟨rfl, -⟩ | ⟨rfl, rfl⟩ <;> rfl
    rw [unnamed, unnamed, List.filter_cons, List.filter_cons, heading, ← unnamed, ← unnamed]
    by_cases mine : e.heading = []
    · rw [if_pos (by simpa using mine), if_pos (by simpa using mine), List.foldlM_cons,
        List.foldlM_cons, alike.apply_eq token lists plain stands mine]
      rcases apply all' x e' with fault | x'
      · rfl
      · exact ih x'
    · rw [if_neg (by simpa using mine), if_neg (by simpa using mine)]
      exact ih x

end Settings

section Results

variable {s w : List Char} {pairs : List (List Char × List Char)} {all own : List Setting}
  {x e : LeafExtensions} {text text' : String}

theorem last?_concat (own : List Setting) (s : Setting) (key : String) :
    last? (own ++ [s]) key = if s.key = key.toList then some s.value else last? own key := by
  rw [last?, List.filter_append]
  split
  · next mine =>
    rw [List.filter_cons_of_pos (by simpa using mine), List.filter_nil, List.getLast?_concat]
    rfl
  · next other =>
    rw [List.filter_cons_of_neg (by simpa using other), List.filter_nil, List.append_nil, ← last?]

theorem altNames_of_apply {s : Setting} {x' : LeafExtensions} (applied : apply all x s = .ok x')
    (other : s.key ≠ "subjectAltName".toList) : x'.altNames = x.altNames := by
  rcases fault : faultOf all s with _ | _
  · obtain ⟨x'', ran, adds⟩ := apply_of_sound (e := x) fault
    cases ran.symm.trans applied
    have kept := adds.altNames
    rwa [Sets, if_neg other] at kept
  · rw [apply_of_fault fault] at applied
    cases applied

theorem names_of_foldlM (done : own.foldlM (apply all) x = .ok e)
    (last : last? own "subjectAltName" = some w) :
    ((tokens w).mapM (altNamesOf all)).map List.flatten = .ok e.altNames := by
  induction own using List.reverseRecOn generalizing e with
  | nil => cases last
  | append_singleton own s ih =>
    rw [List.foldlM_append] at done
    rcases ran : own.foldlM (apply all) x with fault | x' <;> rw [ran] at done
    · cases done
    have applied : apply all x' s = .ok e := by
      rw [← done]
      exact (bind_pure (apply all x' s)).symm
    rw [last?_concat] at last
    split at last
    · next mine =>
      cases last
      rw [apply_of_namesKey mine] at applied
      rcases read : ((tokens s.value).mapM (altNamesOf all)).map List.flatten with fault | names
      · rw [read] at applied
        cases applied
      · rw [read] at applied
        cases applied
        rfl
    · next other => rw [ih ran last, altNames_of_apply applied other]

theorem altName_invalid {p : List Char × List Char} (none : ∀ n, altName p.1 p.2 ≠ .ok n) :
    altName p.1 p.2 = .error (.invalidAltName (String.ofList (asToken p))) := by
  revert none
  unfold altName
  dsimp only
  repeat' split
  all_goals intro none
  all_goals first | rfl | exact absurd rfl (none _)

theorem namesOf_invalid {p : List Char × List Char} {front back : List (List Char × List Char)}
    (read : ∀ q ∈ front, ∃ n, altName q.1 q.2 = .ok n) (none : ∀ n, altName p.1 p.2 ≠ .ok n) :
    namesOf (front ++ p :: back) = .error (.invalidAltName (String.ofList (asToken p))) := by
  rw [namesOf, mapM_eq_error, firstFault, List.findSome?_append, List.findSome?_eq_none_iff.2,
    Option.none_or, List.findSome?_cons, altName_invalid none]
  · rfl
  · intro q member
    obtain ⟨n, named⟩ := read q member
    rw [named]
    rfl

theorem faultOf_of_namesKey {e : Setting} (mine : e.key = namesKey) :
    faultOf all e = firstFault (altNamesOf all) (tokens e.value) := by
  have here : e.key = "subjectAltName".toList := mine
  rw [faultOf, if_neg (ne_of_namesKey mine (by simp)), if_neg (ne_of_namesKey mine (by simp)),
    if_pos here]

theorem sound_of_settings {ls : List (List Char)} {heading : List Char} {number : Nat}
    (read : settings heading number ls = .ok all) : ∀ raw ∈ ls, ¬Bad (content raw) := by
  induction ls generalizing heading number all with
  | nil => simp
  | cons raw rest ih =>
    by_cases bad : Bad (content raw)
    · rw [settings_bad bad] at read
      cases read
    · rw [settings_cons bad] at read
      rcases below : settings ((headerName? (content raw)).getD heading) (number + 1) rest with
        fault | more
      · rw [below] at read
        cases read
      · exact List.forall_mem_cons.2 ⟨bad, ih below⟩

/-- What two files come to of which one lists pairs as `w` and the other one in a section. -/
structure SameNames (pairs : List (List Char × List Char)) (w : List Char) (text text' : String) :
    Prop where
  same : Sound text → parse text = parse text'
  bad : ¬Sound text → ∃ number number' line, parse text = .error (.badLine number line) ∧
    parse text' = .error (.badLine number' line)
  names : ∀ e, parse text = .ok e → last? (unnamed (entries text)) "subjectAltName" = some w →
    List.Forall₂ (fun p n => altName p.1 p.2 = .ok n) pairs e.altNames
  fault : Sound text → ∀ above below,
    unnamed (entries text) = above ++ ⟨[], namesKey, w⟩ :: below →
    (∀ e ∈ above, faultOf (entries text) e = none) →
    ∀ front p back, pairs = front ++ p :: back → (∀ q ∈ front, ∃ n, altName q.1 q.2 = .ok n) →
      (∀ n, altName p.1 p.2 ≠ .ok n) →
      parse text = .error (.invalidAltName (String.ofList (asToken p)))

theorem parse_sectioned (named : s ≠ []) (word : trim s = s) (comma : ',' ∉ s)
    (plain : ∀ p ∈ pairs, Plain p) (lists : Lists pairs w)
    (sectioned : Sectioned s w [] [] pairs (Text.lines text.toList) (Text.lines text'.toList)) :
    SameNames pairs w text text' := by
  have token : IsToken ('@' :: s) := by
    have trimmed := Text.trim_append_cons (c := '@') rfl [] s
    rw [Text.trimEnd_of_trim word] at trimmed
    exact ⟨trimmed, by simp [comma], List.cons_ne_nil _ _, by simp⟩
  have alongside := sectioned.settings named plain named.symm 1 1
  have listed : ((tokens w).mapM (altNamesOf (entries text))).map List.flatten = namesOf pairs :=
    lists.names_eq plain
  have bad (unsound : ¬Sound text) : ∃ number number' line,
      parse text = .error (.badLine number line) ∧
      parse text' = .error (.badLine number' line) := by
    rw [parse, parse]
    generalize here : settings [] 1 (Text.lines text.toList) = r at alongside ⊢
    generalize settings [] 1 (Text.lines text'.toList) = r' at alongside ⊢
    cases alongside with
    | read alike => exact absurd (sound_of_settings here) unsound
    | bad number number' line => exact ⟨number, number', line, rfl, rfl⟩
  refine ⟨fun sound => ?_, bad, fun e done last => ?_, fun sound above below own first front p back
    split read none => ?_⟩
  · rw [settings_of_sound sound] at alongside
    rw [parse_of_sound sound, parse]
    generalize settings [] 1 (Text.lines text'.toList) = r' at alongside ⊢
    cases alongside with
    | read alike => exact alike.foldlM_eq named token lists plain default
  · have sound : Sound text := by
      by_contra unsound
      obtain ⟨_, _, _, failed, _⟩ := bad unsound
      cases failed.symm.trans done
    rw [parse_of_sound sound] at done
    exact mapM_eq_ok.1 (listed.symm.trans (names_of_foldlM done last))
  · rw [split, namesOf_invalid read none] at listed
    rcases tried : (tokens w).mapM (altNamesOf (entries text)) with fault | groups <;>
      rw [tried] at listed <;> cases listed
    have here := (faultOf_of_namesKey (e := ⟨[], namesKey, w⟩) rfl).trans (mapM_eq_error.1 tried)
    rw [parse_of_sound sound, own, foldlM_of_fault here first]

/-- Two names in a section that is opened twice and left again. -/
theorem parse_sectioned_of_halves :
    SameNames [("DNS".toList, "a=b".toList), ("IP".toList, "::1".toList)] "DNS:a=b,IP:::1".toList
      "subjectAltName=DNS:a=b,IP:::1\nbasicConstraints=CA:TRUE"
      "subjectAltName=@s\n[s]\nDNS.1=a=b\n[s]\nIP.7=::1\n[]\nbasicConstraints=CA:TRUE" := by
  have plain : ∀ p ∈ [("DNS".toList, "a=b".toList), ("IP".toList, "::1".toList)], Plain p := by
    intro p member
    simp only [List.mem_cons, List.not_mem_nil, or_false] at member
    rcases member with rfl | rfl
    · exact ⟨by simp [isBlank], by simp, by decide +kernel, by decide +kernel⟩
    · exact ⟨by simp [isBlank], by simp, by decide +kernel, by decide +kernel⟩
  have lists : Lists [("DNS".toList, "a=b".toList), ("IP".toList, "::1".toList)]
      (asToken ("DNS".toList, "a=b".toList) ++ ',' :: asToken ("IP".toList, "::1".toList)) :=
    .more (.refl _) (.last (.refl _))
  have whole : asToken ("DNS".toList, "a=b".toList) ++ ',' :: asToken ("IP".toList, "::1".toList) =
      "DNS:a=b,IP:::1".toList := by decide +kernel
  rw [whole] at lists
  have line : Line.read "basicConstraints=CA:TRUE".toList =
      .setting "basicConstraints".toList "CA:TRUE".toList := by decide +kernel
  have kept : Sectioned ['s'] "DNS:a=b,IP:::1".toList [] [] []
      ["basicConstraints=CA:TRUE".toList] ["basicConstraints=CA:TRUE".toList] := by
    refine .shared (fun name header => ?_) (fun key value setting uses => ?_) .done
    · cases line.symm.trans header
    · cases line.symm.trans setting
      exact absurd uses.2.1 (by decide +kernel)
  have header {name : List Char} (solid : '#' ∉ name) (trimmed : trim name = name) :
      Writes (.header name) ('[' :: name ++ [']']) := .header solid trimmed (.refl _) (.refl _)
  have setting {key value : List Char} (plain : '#' ∉ key ∧ '=' ∉ key ∧ key.head? ≠ some '[' ∧
      trim key = key ∧ '#' ∉ value ∧ trim value = value) :
      Writes (.setting key value) (key ++ '=' :: value) :=
    .setting plain.1 plain.2.1 plain.2.2.1 plain.2.2.2.1 plain.2.2.2.2.1 plain.2.2.2.2.2
      (.refl _) (.refl _)
  have sectioned := Sectioned.names (setting (by decide +kernel)) (setting (by decide +kernel)) <|
    .opened (header (by decide) (by decide)) <|
    .entry (n := 1) (p := ("DNS".toList, "a=b".toList)) (setting (by decide +kernel)) <|
    .opened (header (by decide) (by decide)) <|
    .entry (n := 7) (p := ("IP".toList, "::1".toList)) (setting (by decide +kernel)) <|
    .closed (header (by decide) (by decide)) kept
  apply parse_sectioned (s := ['s']) (by decide) (by decide) (by decide) plain lists
  have lines : Text.lines "subjectAltName=DNS:a=b,IP:::1\nbasicConstraints=CA:TRUE".toList =
      [namesKey ++ '=' :: "DNS:a=b,IP:::1".toList, "basicConstraints=CA:TRUE".toList] := by
    decide +kernel
  rw [lines]
  convert sectioned using 1
  decide +kernel

end Results

end NetworkCa.LeafExtensions
