import Mathlib.Data.List.Forall2
import Mathlib.Data.List.Induction
import NetworkCa.Proofs.Extensions.Entries

namespace NetworkCa.LeafExtensions

open Text (before splitOnce_eq_some dropPrefix?_eq_some)

section Tokens

variable {α β : Type} {ts : List β} {as : List α} {read : β → Except ExtensionError α}
  {fault : ExtensionError} {all all' : List Setting} {token : List Char}

def fault? : Except ExtensionError α → Option ExtensionError
  | .ok _ => none
  | .error fault => some fault

def firstFault (read : β → Except ExtensionError α) (ts : List β) : Option ExtensionError :=
  ts.findSome? fun t => fault? (read t)

theorem mapM_eq_error : ts.mapM read = .error fault ↔ firstFault read ts = some fault := by
  induction ts with
  | nil => exact ⟨nofun, nofun⟩
  | cons t rest ih =>
    rw [List.mapM_cons, firstFault, List.findSome?_cons, ← firstFault]
    rcases read t with fault' | a
    · simp [fault?, bind, Except.bind]
    · rw [show fault? (Except.ok a) = none from rfl]
      dsimp only
      rw [← ih]
      cases rest.mapM read <;> simp [bind, Except.bind, pure, Except.pure]

theorem mapM_eq_ok :
    ts.mapM read = .ok as ↔ List.Forall₂ (fun t a => read t = .ok a) ts as := by
  induction ts generalizing as with
  | nil => cases as <;> simp [pure, Except.pure]
  | cons t rest ih =>
    rw [List.mapM_cons]
    rcases here : read t with fault | a
    · simp only [bind, Except.bind, reduceCtorEq, false_iff]
      intro each
      cases each with
      | cons found _ => cases here.symm.trans found
    · cases as with
      | nil => cases rest.mapM read <;> simp [bind, Except.bind, pure, Except.pure]
      | cons a' as =>
        rw [List.forall₂_cons, here, ← ih]
        cases rest.mapM read <;> simp [bind, Except.bind, pure, Except.pure]

theorem mapM_congr {read' : β → Except ExtensionError α} (same : ∀ t ∈ ts, read t = read' t) :
    ts.mapM read = ts.mapM read' := by
  induction ts with
  | nil => rfl
  | cons t rest ih =>
    rw [List.mapM_cons, List.mapM_cons, same t List.mem_cons_self,
      ih fun t' later => same t' (List.mem_cons_of_mem _ later)]

theorem exists_mapM_of_sound (h : firstFault read ts = none) :
    ∃ as, ts.mapM read = .ok as ∧ List.Forall₂ (fun t a => read t = .ok a) ts as := by
  rcases done : ts.mapM read with fault | as
  · rw [mapM_eq_error.1 done] at h
    cases h
  · exact ⟨as, rfl, mapM_eq_ok.1 done⟩

theorem eq_map_of_forall₂ {spell : α → β} (each : List.Forall₂ (fun t a => read t = .ok a) ts as)
    (spelled : ∀ t a, read t = .ok a → t = spell a) : ts = as.map spell := by
  induction each with
  | nil => rfl
  | cons found _ ih => rw [List.map_cons, ← ih, ← spelled _ _ found]

theorem readKeyUsage_eq_ok {u : KeyUsage} : readKeyUsage token = .ok u ↔ token = u.name.toList := by
  rw [readKeyUsage]
  constructor
  · intro h
    split at h
    · next u' found =>
      cases h
      have same := List.find?_some found
      rw [decide_eq_true_iff] at same
      rw [same, String.toList_ofList]
    · cases h
  · rintro rfl
    rw [String.ofList_toList]
    cases u <;> rfl

theorem readExtendedKeyUsage_eq_ok {u : ExtendedKeyUsage} :
    readExtendedKeyUsage token = .ok u ↔ token = u.name.toList := by
  rw [readExtendedKeyUsage]
  constructor
  · intro h
    split at h
    · next u' found =>
      cases h
      have same := List.find?_some found
      rw [decide_eq_true_iff] at same
      rw [same, String.toList_ofList]
    · cases h
  · rintro rfl
    rw [String.ofList_toList]
    cases u <;> rfl

/-- The names that a token gives. A reference gives one for each entry of a section, in the order
    of the file, and there is at least one. -/
inductive Names (all : List Setting) : List Char → List AltName → Prop
  | reference {name : List Char} {names : List AltName} :
    names ≠ [] →
    List.Forall₂ (fun s n => altName (before '.' s.key) s.value = .ok n)
      (all.filter (·.heading = name)) names →
    Names all ('@' :: name) names
  | inline {kind value : List Char} {n : AltName} :
    kind.head? ≠ some '@' → ':' ∉ kind → altName kind value = .ok n →
    Names all (kind ++ ':' :: value) [n]

theorem names_of_altNamesOf {names : List AltName} (h : altNamesOf all token = .ok names) :
    Names all token names := by
  rw [altNamesOf] at h
  split at h
  · next name reference =>
    cases dropPrefix?_eq_some.1 reference
    split at h
    · cases h
    · next full =>
      have each := mapM_eq_ok.1 h
      refine .reference (fun none => ?_) each
      subst none
      exact full (List.forall₂_nil_right_iff.1 each)
  · next unreferenced =>
    have inline : token.head? ≠ some '@' := by
      intro front
      obtain ⟨rest, same⟩ := List.head?_eq_some_iff.1 front
      rw [dropPrefix?_eq_some.2 (show token = ['@'] ++ rest from same)] at unreferenced
      cases unreferenced
    split at h
    · next kind value cut =>
      obtain ⟨rfl, first⟩ := splitOnce_eq_some.1 cut
      rcases spelled : altName kind value with fault | n <;> rw [spelled] at h
      · cases h
      · cases h
        refine .inline (fun front => inline ?_) first spelled
        rw [List.head?_append, front]
        rfl
    · cases h

theorem altNamesOf_congr (same : ∀ name, token = '@' :: name →
    all.filter (·.heading = name) = all'.filter (·.heading = name)) :
    altNamesOf all token = altNamesOf all' token := by
  rw [altNamesOf, altNamesOf]
  split
  · next name reference =>
    rw [same name (dropPrefix?_eq_some.1 reference)]
  · rfl

end Tokens

section Values

variable {α : Type} {all all' own : List Setting} {s : Setting} {e e' : LeafExtensions}
  {fault : ExtensionError} {key : String} {rule : List Char → α → Prop} {fallback a a' : α}

def faultOf (all : List Setting) (s : Setting) : Option ExtensionError :=
  if s.key = "keyUsage".toList then firstFault readKeyUsage (tokens s.value)
  else if s.key = "extendedKeyUsage".toList then firstFault readExtendedKeyUsage (tokens s.value)
  else if s.key = "subjectAltName".toList then firstFault (altNamesOf all) (tokens s.value)
  else none

def last? (own : List Setting) (key : String) : Option (List Char) :=
  ((own.filter (·.key = key.toList)).getLast?).map (·.value)

/-- What the last entry for a key says, or the default if there is none. -/
def Given (own : List Setting) (key : String) (rule : List Char → α → Prop) (fallback a : α) :
    Prop :=
  match last? own key with
  | some value => rule value a
  | none => a = fallback

def Sets (s : Setting) (key : String) (rule : List Char → α → Prop) (a a' : α) : Prop :=
  if s.key = key.toList then rule s.value a' else a' = a

theorem sets_of_ne (h : s.key ≠ key.toList) : Sets s key rule a a := by
  rw [Sets, if_neg h]

theorem sets_of_other {key' : String} (h : s.key = key.toList) (other : key ≠ key') :
    Sets s key' rule a a := by
  apply sets_of_ne
  intro same
  exact other (String.toList_inj.1 (h.symm.trans same))

theorem Given.step (given : Given own key rule fallback a) (set : Sets s key rule a a') :
    Given (own ++ [s]) key rule fallback a' := by
  rw [Sets] at set
  rw [Given, last?, List.filter_append]
  split at set
  · next here =>
    rw [List.filter_cons_of_pos (by simpa using here), List.filter_nil, List.getLast?_concat]
    exact set
  · next other =>
    rw [List.filter_cons_of_neg (by simpa using other), List.filter_nil, List.append_nil, ← last?,
      set]
    exact given

def SaysCa (value : List Char) (isCa : Bool) : Prop :=
  isCa = true ↔ ∃ t ∈ tokens value, lowered t = "ca:true".toList

def SaysUsages (value : List Char) (usages : List KeyUsage) : Prop :=
  tokens value = usages.map (·.name.toList)

def SaysExtendedUsages (value : List Char) (usages : List ExtendedKeyUsage) : Prop :=
  tokens value = usages.map (·.name.toList)

def SaysNames (all : List Setting) (value : List Char) (names : List AltName) : Prop :=
  ∃ groups, List.Forall₂ (Names all) (tokens value) groups ∧ names = groups.flatten

structure Means (all own : List Setting) (e : LeafExtensions) : Prop where
  isCa : Given own "basicConstraints" SaysCa default.isCa e.isCa
  keyUsages : Given own "keyUsage" SaysUsages default.keyUsages e.keyUsages
  extendedKeyUsages : Given own "extendedKeyUsage" SaysExtendedUsages default.extendedKeyUsages
    e.extendedKeyUsages
  altNames : Given own "subjectAltName" (SaysNames all) default.altNames e.altNames
  authorityKeyIdentifier : e.authorityKeyIdentifier = true

structure Adds (all : List Setting) (s : Setting) (e e' : LeafExtensions) : Prop where
  isCa : Sets s "basicConstraints" SaysCa e.isCa e'.isCa
  keyUsages : Sets s "keyUsage" SaysUsages e.keyUsages e'.keyUsages
  extendedKeyUsages : Sets s "extendedKeyUsage" SaysExtendedUsages e.extendedKeyUsages
    e'.extendedKeyUsages
  altNames : Sets s "subjectAltName" (SaysNames all) e.altNames e'.altNames
  authorityKeyIdentifier : e.authorityKeyIdentifier = true → e'.authorityKeyIdentifier = true

theorem Means.step (means : Means all own e) (adds : Adds all s e e') :
    Means all (own ++ [s]) e' where
  isCa := means.isCa.step adds.isCa
  keyUsages := means.keyUsages.step adds.keyUsages
  extendedKeyUsages := means.extendedKeyUsages.step adds.extendedKeyUsages
  altNames := means.altNames.step adds.altNames
  authorityKeyIdentifier := adds.authorityKeyIdentifier means.authorityKeyIdentifier

theorem apply_of_fault (h : faultOf all s = some fault) : apply all e s = .error fault := by
  unfold apply
  split
  · next key => simp [faultOf, key] at h
  next =>
  split
  · next key =>
    rw [faultOf, if_pos key] at h
    rw [mapM_eq_error.2 h]
    rfl
  next unused =>
  split
  · next key =>
    rw [faultOf, if_neg unused, if_pos key] at h
    rw [mapM_eq_error.2 h]
    rfl
  next unextended =>
  split
  · next key =>
    rw [faultOf, if_neg unused, if_neg unextended, if_pos key] at h
    rw [mapM_eq_error.2 h]
    rfl
  next unnamed =>
  rw [faultOf, if_neg unused, if_neg unextended, if_neg unnamed] at h
  cases h

theorem apply_of_sound (h : faultOf all s = none) :
    ∃ e', apply all e s = .ok e' ∧ Adds all s e e' := by
  unfold apply
  split
  · next key =>
    have set : Sets s "basicConstraints" SaysCa e.isCa
        ((tokens s.value).any fun t => lowered t = "ca:true".toList) := by
      rw [Sets, if_pos key, SaysCa, List.any_eq_true]
      simp only [decide_eq_true_eq]
    exact ⟨_, rfl, set, sets_of_other key (by simp), sets_of_other key (by simp),
      sets_of_other key (by simp), id⟩
  next unbound =>
  split
  · next key =>
    rw [faultOf, if_pos key] at h
    obtain ⟨us, read, each⟩ := exists_mapM_of_sound h
    have set : Sets s "keyUsage" SaysUsages e.keyUsages us := by
      rw [Sets, if_pos key, SaysUsages]
      exact eq_map_of_forall₂ each fun _ _ => readKeyUsage_eq_ok.1
    rw [read]
    exact ⟨_, rfl, sets_of_other key (by simp), set, sets_of_other key (by simp),
      sets_of_other key (by simp), id⟩
  next unused =>
  split
  · next key =>
    rw [faultOf, if_neg unused, if_pos key] at h
    obtain ⟨us, read, each⟩ := exists_mapM_of_sound h
    have set : Sets s "extendedKeyUsage" SaysExtendedUsages e.extendedKeyUsages us := by
      rw [Sets, if_pos key, SaysExtendedUsages]
      exact eq_map_of_forall₂ each fun _ _ => readExtendedKeyUsage_eq_ok.1
    rw [read]
    exact ⟨_, rfl, sets_of_other key (by simp), sets_of_other key (by simp), set,
      sets_of_other key (by simp), id⟩
  next unextended =>
  split
  · next key =>
    rw [faultOf, if_neg unused, if_neg unextended, if_pos key] at h
    obtain ⟨groups, read, each⟩ := exists_mapM_of_sound h
    have set : Sets s "subjectAltName" (SaysNames all) e.altNames groups.flatten := by
      rw [Sets, if_pos key, SaysNames]
      exact ⟨groups, each.imp fun _ _ => names_of_altNamesOf, rfl⟩
    rw [read]
    exact ⟨_, rfl, sets_of_other key (by simp), sets_of_other key (by simp),
      sets_of_other key (by simp), set, id⟩
  next unnamed =>
  -- An authority's key is identified by default, so that its own entry adds nothing either.
  have skipped (known : Bool) (kept : e.authorityKeyIdentifier = true → known = true) :
      Adds all s e { e with authorityKeyIdentifier := known } :=
    ⟨sets_of_ne unbound, sets_of_ne unused, sets_of_ne unextended, sets_of_ne unnamed, kept⟩
  split
  · exact ⟨_, rfl, skipped true fun _ => rfl⟩
  · exact ⟨_, rfl, skipped e.authorityKeyIdentifier id⟩

theorem foldlM_of_sound (sound : ∀ s ∈ own, faultOf all s = none) :
    ∃ e, own.foldlM (apply all) default = .ok e ∧ Means all own e := by
  -- From the right end, since the last entry for a key is the one that counts.
  induction own using List.reverseRecOn with
  | nil => exact ⟨default, rfl, rfl, rfl, rfl, rfl, rfl⟩
  | append_singleton own s ih =>
    obtain ⟨e, ran, means⟩ := ih fun s' earlier => sound s' (List.mem_append_left _ earlier)
    obtain ⟨e', applied, adds⟩ := apply_of_sound (e := e) (sound s (by simp))
    refine ⟨e', ?_, means.step adds⟩
    rw [List.foldlM_append, ran]
    simp [bind, Except.bind, applied, pure, Except.pure]

theorem foldlM_of_fault {before after : List Setting} (h : faultOf all s = some fault)
    (first : ∀ s' ∈ before, faultOf all s' = none) :
    (before ++ s :: after).foldlM (apply all) default = .error fault := by
  obtain ⟨e, ran, _⟩ := foldlM_of_sound first
  rw [List.foldlM_append, ran]
  simp [bind, Except.bind, apply_of_fault h]

end Values

section Effect

variable {all all' own : List Setting} {s : Setting} {e e' : LeafExtensions}

/-- The keys that have a meaning. An authority's key is identified in any case. -/
def IsEffective (s : Setting) : Prop :=
  s.key = "basicConstraints".toList ∨ s.key = "keyUsage".toList ∨
    s.key = "extendedKeyUsage".toList ∨ s.key = "subjectAltName".toList

instance (s : Setting) : Decidable (IsEffective s) :=
  inferInstanceAs (Decidable (_ ∨ _ ∨ _ ∨ _))

def unnamed (all : List Setting) : List Setting := all.filter (·.heading.isEmpty)

/-- Entries that agree in all that has an effect: the entries of the unnamed section that have a
    meaning, and those of the sections that these refer to. -/
structure SameEffect (all all' : List Setting) : Prop where
  own : (unnamed all).filter IsEffective = (unnamed all').filter IsEffective
  referenced : ∀ s ∈ unnamed all, s.key = "subjectAltName".toList →
    ∀ name, '@' :: name ∈ tokens s.value →
      all.filter (·.heading = name) = all'.filter (·.heading = name)

theorem apply_of_ineffective (h : ¬IsEffective s) (known : e.authorityKeyIdentifier = true) :
    apply all e s = .ok e := by
  simp only [IsEffective, not_or] at h
  rw [apply, if_neg h.1, if_neg h.2.1, if_neg h.2.2.1, if_neg h.2.2.2]
  split
  · rw [← known]
  · rfl

theorem authorityKeyIdentifier_of_apply (h : apply all e s = .ok e')
    (known : e.authorityKeyIdentifier = true) : e'.authorityKeyIdentifier = true := by
  rcases fault : faultOf all s with _ | _
  · obtain ⟨e'', ran, adds⟩ := apply_of_sound (e := e) fault
    cases ran.symm.trans h
    exact adds.authorityKeyIdentifier known
  · rw [apply_of_fault fault] at h
    cases h

theorem foldlM_effective (known : e.authorityKeyIdentifier = true) :
    own.foldlM (apply all) e = (own.filter IsEffective).foldlM (apply all) e := by
  induction own generalizing e with
  | nil => rfl
  | cons s rest ih =>
    by_cases effective : IsEffective s
    · rw [List.filter_cons_of_pos (by simpa using effective), List.foldlM_cons, List.foldlM_cons]
      rcases ran : apply all e s with fault | e'
      · rfl
      · exact ih (authorityKeyIdentifier_of_apply ran known)
    · rw [List.filter_cons_of_neg (by simpa using effective), List.foldlM_cons,
        apply_of_ineffective effective known]
      exact ih known

theorem apply_congr (same : s.key = "subjectAltName".toList →
    ∀ name, '@' :: name ∈ tokens s.value →
      all.filter (·.heading = name) = all'.filter (·.heading = name)) :
    apply all e s = apply all' e s := by
  rw [apply, apply]
  split
  · rfl
  split
  · rfl
  split
  · rfl
  split
  · next key =>
    rw [mapM_congr fun token member => altNamesOf_congr fun name reference =>
      same key name (reference ▸ member)]
  · rfl

theorem foldlM_congr (same : ∀ s ∈ own, ∀ e, apply all e s = apply all' e s) :
    own.foldlM (apply all) e = own.foldlM (apply all') e := by
  induction own generalizing e with
  | nil => rfl
  | cons s rest ih =>
    rw [List.foldlM_cons, List.foldlM_cons, same s List.mem_cons_self]
    rcases apply all' e s with fault | e'
    · rfl
    · exact ih fun s' later => same s' (List.mem_cons_of_mem _ later)

end Effect

structure Meaning (text : String) (result : Except ExtensionError LeafExtensions) : Prop where
  bad : ∀ above raw below, Text.lines text.toList = above ++ raw :: below → Bad (content raw) →
    (∀ raw' ∈ above, ¬Bad (content raw')) →
    result = .error (.badLine (above.length + 1) (String.ofList raw))
  fault : Sound text → ∀ before s after fault,
    unnamed (entries text) = before ++ s :: after → faultOf (entries text) s = some fault →
    (∀ s' ∈ before, faultOf (entries text) s' = none) → result = .error fault
  value : Sound text → (∀ s ∈ unnamed (entries text), faultOf (entries text) s = none) →
    ∃ e, result = .ok e ∧ Means (entries text) (unnamed (entries text)) e

theorem parse_of_sound {text : String} (sound : Sound text) :
    parse text = (unnamed (entries text)).foldlM (apply (entries text)) default := by
  rw [parse, settings_of_sound sound]
  rfl

theorem parse_of_sameEffect {text text' : String} (sound : Sound text) (sound' : Sound text')
    (same : SameEffect (entries text) (entries text')) : parse text = parse text' := by
  have alike : ∀ s ∈ (unnamed (entries text)).filter IsEffective, ∀ e,
      apply (entries text) e s = apply (entries text') e s :=
    fun s member e => apply_congr (same.referenced s (List.mem_filter.1 member).1)
  rw [parse_of_sound sound, parse_of_sound sound', foldlM_effective rfl, foldlM_congr alike,
    same.own, ← foldlM_effective rfl]

/-- The first bad line decides what reading a text comes to, then the first entry of the unnamed
    section with a fault, then the last entry for each key. Nothing else has an effect but the
    entries of sections that names refer to; and comments and blank lines have none at all. -/
theorem parse_meaning :
    (∀ text, Meaning text (parse text)) ∧
    (∀ text text', Sound text → Sound text' → SameEffect (entries text) (entries text') →
      parse text = parse text') ∧
    ∀ text text', Sound text →
      contents (Text.lines text.toList) = contents (Text.lines text'.toList) →
      parse text = parse text' := by
  refine ⟨fun text => ⟨fun above raw below split bad first => ?_, fun sound before s after fault
    split here first => ?_, fun sound faultless => ?_⟩, fun text text' => parse_of_sameEffect,
    fun text text' sound same => ?_⟩
  · rw [parse, split, settings_of_bad bad first, Nat.add_comm]
    rfl
  · rw [parse_of_sound sound, split, foldlM_of_fault here first]
  · rw [parse_of_sound sound]
    exact foldlM_of_sound faultless
  · have sound' : Sound text' := sound_iff.2 (same ▸ sound_iff.1 sound)
    have entries : entries text = entries text' := congrArg (entriesFrom []) same
    rw [parse_of_sound sound, parse_of_sound sound', entries]

/-- Without regard to what a reference without a name takes, entries of the unnamed section for
    other keys have an effect. -/
theorem not_spare_unnamed :
    ¬ ∀ text text', Sound text → Sound text' →
      (unnamed (entries text)).filter IsEffective =
        (unnamed (entries text')).filter IsEffective →
      (∀ name ≠ [], (entries text).filter (·.heading = name) =
        (entries text').filter (·.heading = name)) →
      parse text = parse text' := by
  intro claim
  have two : entries "a = b\nsubjectAltName = @" =
      [⟨[], ['a'], ['b']⟩, ⟨[], "subjectAltName".toList, ['@']⟩] := by decide +kernel
  have one : entries "subjectAltName = @" = [⟨[], "subjectAltName".toList, ['@']⟩] := by
    decide +kernel
  have same := claim "a = b\nsubjectAltName = @" "subjectAltName = @" (by decide +kernel)
    (by decide +kernel) (by decide +kernel) fun name other => by
      rw [two, one]
      simp [other.symm]
  revert same
  decide +kernel

end NetworkCa.LeafExtensions
