import Mathlib.Data.List.Forall2
import NetworkCa.Proofs.Json.Written
import NetworkCa.Proofs.Topology.Entries

namespace NetworkCa

open Json

def Json.Value.ofNullable : Option String → Value
  | none => .null
  | some s => .text (some s)

theorem Json.Value.nullable?_ofNullable (o : Option String) :
    (Value.ofNullable o).nullable? = some o := by
  cases o <;> rfl

namespace Identity

def known : List String := ["role", "dir", "name", "ca_link"]

def under (key : String) (ms : List (Option String × Value)) : List Value :=
  ms.filterMap fun member => if member.1 = some key then some member.2 else none

def field {α : Type} (key : String) (read : Value → Option α) (o : Option α)
    (member : Option String × Value) : Option (Option α) :=
  if member.1 = some key then (once? o (read member.2)).map some else some o

inductive Given {α : Type} (read : Value → Option α) : List Value → Option α → Prop
  | absent : Given read [] none
  | once {v : Value} {a : α} : read v = some a → Given read [v] (some a)

section

variable {α : Type} {key : String} {read : Value → Option α} {o : Option α} {v : Value}
  {ms : List (Option String × Value)} {m m' : Members} {i : Identity}

theorem step_eq_some {member : Option String × Value} :
    m.step member = some m' ↔ member.1.isSome ∧
      field "role" role? m.role member = some m'.role ∧
      field "dir" dir? m.dir member = some m'.dir ∧
      field "name" Value.nullable? m.name member = some m'.name ∧
      field "ca_link" Value.nullable? m.caLink member = some m'.caLink := by
  obtain ⟨o, v⟩ := member
  obtain ⟨role, dir, name, caLink⟩ := m'
  cases o with
  | none => simp [Members.step]
  | some key =>
    simp only [Members.step, Option.bind_some, Members.put, field, Option.some.injEq]
    split
    · next same =>
      subst same
      cases once? m.role (role? v) <;> simp
    split
    · next same =>
      subst same
      cases once? m.dir (dir? v) <;> simp
    split
    · next same =>
      subst same
      cases once? m.name v.nullable? <;> simp
    split
    · next same =>
      subst same
      cases once? m.caLink v.nullable? <;> simp
    · cases m
      simp

theorem members_eq_some :
    ms.foldlM Members.step m = some m' ↔ (∀ member ∈ ms, member.1.isSome) ∧
      ms.foldlM (field "role" role?) m.role = some m'.role ∧
      ms.foldlM (field "dir" dir?) m.dir = some m'.dir ∧
      ms.foldlM (field "name" Value.nullable?) m.name = some m'.name ∧
      ms.foldlM (field "ca_link" Value.nullable?) m.caLink = some m'.caLink := by
  induction ms generalizing m with
  | nil =>
    cases m
    cases m'
    simp
  | cons member ms ih =>
    simp only [List.foldlM_cons, Option.bind_eq_bind, Option.bind_eq_some_iff, step_eq_some, ih,
      List.forall_mem_cons]
    -- The four fields between the steps are chosen one by one on the right, and as one on the left.
    constructor
    · rintro ⟨m₁, ⟨named, role, dir, name, caLink⟩, others, role', dir', name', caLink'⟩
      exact ⟨⟨named, others⟩, ⟨_, role, role'⟩, ⟨_, dir, dir'⟩, ⟨_, name, name'⟩,
        ⟨_, caLink, caLink'⟩⟩
    · rintro ⟨⟨named, others⟩, ⟨r, role, role'⟩, ⟨d, dir, dir'⟩, ⟨n, name, name'⟩,
        ⟨l, caLink, caLink'⟩⟩
      exact ⟨⟨r, d, n, l⟩, ⟨named, role, dir, name, caLink⟩, others, role', dir', name', caLink'⟩

theorem under_cons (key : String) (member : Option String × Value)
    (ms : List (Option String × Value)) :
    under key (member :: ms) =
      if member.1 = some key then member.2 :: under key ms else under key ms := by
  unfold under
  rw [List.filterMap_cons]
  split <;> split <;> simp_all

theorem field_filled {a : α} :
    ms.foldlM (field key read) (some a) = some o ↔ under key ms = [] ∧ o = some a := by
  induction ms with
  | nil => simp [under, eq_comm]
  | cons member ms ih =>
    rw [List.foldlM_cons, under_cons, field]
    split
    · simp [once?]
    · simpa using ih

theorem given_cons {vs : List Value} :
    Given read (v :: vs) o ↔ ∃ a, read v = some a ∧ vs = [] ∧ o = some a := by
  constructor
  · rintro ⟨⟩
    exact ⟨_, ‹_›, rfl, rfl⟩
  · rintro ⟨a, is, rfl, rfl⟩
    exact .once is

theorem field_given :
    ms.foldlM (field key read) none = some o ↔ Given read (under key ms) o := by
  induction ms with
  | nil =>
    constructor
    · rintro ⟨⟩
      exact .absent
    · rintro ⟨⟩
      rfl
  | cons member ms ih =>
    rw [List.foldlM_cons, under_cons, field]
    split
    · cases h : read member.2 <;> simp [once?, given_cons, field_filled, h]
    · simpa using ih

/-- An object is an identity if its keys are texts and each of its fields is given as it should be.
    Members under other keys do not count. -/
theorem ofValue?_object :
    ofValue? (.object ms) = some i ↔ (∀ member ∈ ms, member.1.isSome) ∧
      ∃ role dir name caLink, Given role? (under "role" ms) (some role) ∧
        Given dir? (under "dir" ms) (some dir) ∧
        Given Value.nullable? (under "name" ms) name ∧
        Given Value.nullable? (under "ca_link" ms) caLink ∧
        make role dir name.join caLink.join = i := by
  have whole (m : Members) :
      m.identity? = some i ↔ ∃ role dir, m.role = some role ∧ m.dir = some dir ∧
        make role dir m.name.join m.caLink.join = i := by
    obtain ⟨role, dir, name, caLink⟩ := m
    cases role <;> cases dir <;> simp [Members.identity?]
  simp only [ofValue?, Option.bind_eq_some_iff, members_eq_some, field_given, whole]
  constructor
  · rintro ⟨m, ⟨named, role, dir, name, caLink⟩, r, d, isRole, isDir, same⟩
    rw [isRole] at role
    rw [isDir] at dir
    exact ⟨named, r, d, _, _, role, dir, name, caLink, same⟩
  · rintro ⟨named, r, d, n, l, role, dir, name, caLink, same⟩
    exact ⟨⟨some r, some d, n, l⟩, ⟨named, role, dir, name, caLink⟩, r, d, rfl, rfl, same⟩

theorem under_perm {ms' : List (Option String × Value)} (perm : ms.Perm ms') (key : String) :
    (under key ms).Perm (under key ms') :=
  perm.filterMap _

theorem under_append (key : String) (ms ms' : List (Option String × Value)) :
    under key (ms ++ ms') = under key ms ++ under key ms' :=
  List.filterMap_append

theorem mem_under : v ∈ under key ms ↔ (some key, v) ∈ ms := by
  simp only [under, List.mem_filterMap, Option.ite_none_right_eq_some, Option.some.injEq]
  constructor
  · rintro ⟨⟨o, w⟩, member, rfl, rfl⟩
    exact member
  · intro member
    exact ⟨_, member, rfl, rfl⟩

theorem under_sublist {w : Value} (twice : [(some key, v), (some key, w)].Sublist ms) :
    [v, w].Sublist (under key ms) := by
  have read := twice.filterMap fun member => if member.1 = some key then some member.2 else none
  simpa [under] using read

theorem under_eq_nil (absent : ∀ v, (some key, v) ∉ ms) : under key ms = [] :=
  List.eq_nil_iff_forall_not_mem.mpr fun v h => absent v (mem_under.mp h)

theorem filter_key (key : String) (ms : List (Option String × Value)) :
    ms.filter (·.1 = some key) = (under key ms).map (some key, ·) := by
  induction ms with
  | nil => rfl
  | cons member ms ih =>
    obtain ⟨o, v⟩ := member
    rw [List.filter_cons, under_cons, ih]
    by_cases same : o = some key <;> simp [same]

theorem perm_under (keys : List String) (distinct : keys.Nodup)
    (ms : List (Option String × Value)) :
    ms.Perm (keys.flatMap (fun key => (under key ms).map (some key, ·)) ++
      ms.filter fun member => ∀ key ∈ keys, member.1 ≠ some key) := by
  induction keys with
  | nil =>
    rw [List.filter_eq_self.mpr (by simp)]
    exact .refl ms
  | cons key keys ih =>
    obtain ⟨apart, distinct⟩ := List.nodup_cons.mp distinct
    -- From what the keys so far have left over, the next one takes all of its own members.
    let others := ms.filter fun member => ∀ key ∈ keys, member.1 ≠ some key
    have mine : others.filter (·.1 = some key) = (under key ms).map (some key, ·) := by
      rw [← filter_key, List.filter_filter]
      refine List.filter_congr fun member _ => ?_
      by_cases same : member.1 = some key
      · have free : ∀ other ∈ keys, key ≠ other := fun other h e => apart (e ▸ h)
        simpa [same] using free
      · simp [same]
    have theirs : others.filter (fun member => !decide (member.1 = some key)) =
        ms.filter fun member => ∀ other ∈ key :: keys, member.1 ≠ some other := by
      rw [List.filter_filter]
      refine List.filter_congr fun member _ => ?_
      simp
    have cut := (List.filter_append_perm (fun member => decide (member.1 = some key)) others).symm
    rw [mine, theirs] at cut
    rw [List.flatMap_cons, List.append_assoc]
    refine ((ih distinct).trans (cut.append_left _)).trans ?_
    exact List.perm_append_comm_assoc _ _ _

end

/-- The ways to write a role: by its tag, or as the object of its tag and null. -/
inductive Tagged (role : Role) : Value → Prop
  | text : Tagged role (.text (some role.tag))
  | object : Tagged role (.object [(some role.tag, .null)])

theorem role?_eq_some {v : Value} {role : Role} : role? v = some role ↔ Tagged role v := by
  constructor
  · intro h
    unfold role? Value.named? at h
    split at h
    · obtain ⟨tag, rfl, known⟩ := Option.bind_eq_some_iff.mp h
      rw [← Role.tag_of_ofTag? known]
      exact .text
    · obtain ⟨tag, rfl, known⟩ := Option.bind_eq_some_iff.mp h
      rw [← Role.tag_of_ofTag? known]
      exact .object
    · cases h
  · rintro ⟨⟩ <;> exact Role.ofTag?_tag role

theorem dir?_eq_some {v : Value} {dir : Path} :
    dir? v = some dir ↔ v = .text (some dir.text) := by
  cases v with
  | text o =>
    cases dir
    cases o <;> simp [dir?, Value.text?, Path.ofString]
  | _ => simp [dir?, Value.text?]

theorem nullable?_eq_some {v : Value} {o : Option String} :
    v.nullable? = some o ↔ v = .ofNullable o := by
  constructor
  · intro h
    cases v with
    | null =>
      cases h
      rfl
    | text given =>
      obtain ⟨s, rfl, rfl⟩ := Option.map_eq_some_iff.mp h
      rfl
    | _ => cases h
  · rintro rfl
    exact Value.nullable?_ofNullable o

structure Entry where
  role : Role
  dir : String
  name : Option (Option String)
  caLink : Option (Option String)
  deriving Repr, DecidableEq

namespace Entry

def identity (e : Entry) : Identity where
  role := e.role
  dir := ⟨e.dir⟩
  name := e.name.join.getD e.role.tag
  caLink := e.caLink.join.getD "CA.pem"

def members (e : Entry) (role : Value) : List (Option String × Value) :=
  [(some "role", role), (some "dir", .text (some e.dir))]
    ++ (e.name.map fun name => (some "name", Value.ofNullable name)).toList
    ++ (e.caLink.map fun caLink => (some "ca_link", Value.ofNullable caLink)).toList

/-- What is absent at the end is left out. A name that is absent before a link is null. -/
def places (e : Entry) (role : Value) : List Value :=
  [role, .text (some e.dir)] ++
    match e.name, e.caLink with
    | none, none => []
    | some name, none => [.ofNullable name]
    | name, some caLink => [.ofNullable name.join, .ofNullable caLink]

/-- The spellings of an entry: its members in any order with any others between them, or the list
    of what they hold. -/
inductive Spelled (e : Entry) : Value → Prop
  | object {role : Value} {ms extra : List (Option String × Value)} :
    Tagged e.role role → (∀ member ∈ extra, ∃ key, member.1 = some key ∧ key ∉ known) →
    ms.Perm (e.members role ++ extra) → Spelled e (.object ms)
  | list {role : Value} : Tagged e.role role → Spelled e (.array (e.places role))

section

variable {e : Entry} {i : Identity} {v role : Value} {vs : List Value}
  {ms extra : List (Option String × Value)}

theorem under_members (e : Entry) (role : Value) :
    under "role" (e.members role) = [role] ∧
    under "dir" (e.members role) = [.text (some e.dir)] ∧
    under "name" (e.members role) = (e.name.map Value.ofNullable).toList ∧
    under "ca_link" (e.members role) = (e.caLink.map Value.ofNullable).toList := by
  obtain ⟨r, d, name, caLink⟩ := e
  cases name <;> cases caLink <;> simp [under, members]

theorem under_spelled {key : String} (read : key ∈ known)
    (others : ∀ member ∈ extra, ∃ key, member.1 = some key ∧ key ∉ known)
    (perm : ms.Perm (e.members role ++ extra)) :
    (under key ms).Perm (under key (e.members role)) := by
  have none : under key extra = [] := by
    refine under_eq_nil fun v member => ?_
    obtain ⟨other, same, unread⟩ := others _ member
    cases same
    exact unread read
  have whole := under_perm perm key
  rwa [under_append, none, List.append_nil] at whole

theorem given_role {r : Role} :
    Given role? vs (some r) ↔ ∃ role, Tagged r role ∧ vs = [role] := by
  constructor
  · rintro (_ | is)
    exact ⟨_, role?_eq_some.mp is, rfl⟩
  · rintro ⟨role, tagged, rfl⟩
    exact .once (role?_eq_some.mpr tagged)

theorem given_dir {dir : Path} : Given dir? vs (some dir) ↔ vs = [.text (some dir.text)] := by
  constructor
  · rintro (_ | is)
    rw [dir?_eq_some.mp is]
  · rintro rfl
    exact .once (dir?_eq_some.mpr rfl)

theorem given_nullable {o : Option (Option String)} :
    Given Value.nullable? vs o ↔ vs = (o.map Value.ofNullable).toList := by
  constructor
  · rintro (_ | is)
    · rfl
    · rw [nullable?_eq_some.mp is]
      rfl
  · rintro rfl
    cases o with
    | none => exact .absent
    | some o => exact .once (nullable?_eq_some.mpr rfl)

theorem Spelled.ofObject (named : ∀ member ∈ ms, member.1.isSome) (tagged : Tagged e.role role)
    (roles : under "role" ms = [role]) (dirs : under "dir" ms = [.text (some e.dir)])
    (names : under "name" ms = (e.name.map Value.ofNullable).toList)
    (caLinks : under "ca_link" ms = (e.caLink.map Value.ofNullable).toList) :
    Spelled e (.object ms) := by
  have sorted := perm_under known (by decide) ms
  have front : known.flatMap (fun key => (under key ms).map (some key, ·)) = e.members role := by
    obtain ⟨r, d, name, caLink⟩ := e
    simp only [known, List.flatMap_cons, List.flatMap_nil, roles, dirs, names, caLinks, members]
    cases name <;> cases caLink <;> rfl
  rw [front] at sorted
  refine .object tagged (fun member here => ?_) sorted
  obtain ⟨here, unread⟩ := List.mem_filter.mp here
  obtain ⟨key, same⟩ := Option.isSome_iff_exists.mp (named member here)
  exact ⟨key, same, fun read => of_decide_eq_true unread key read same⟩

theorem isSome_of_members (e : Entry) (role : Value) :
    ∀ member ∈ e.members role, member.1.isSome := by
  obtain ⟨r, d, name, caLink⟩ := e
  cases name <;> cases caLink <;> simp [members]

theorem eq_of_perm_toList {o : Option Value} (perm : vs.Perm o.toList) : vs = o.toList := by
  cases o with
  | none => exact List.perm_nil.mp perm
  | some v => exact List.perm_singleton.mp perm

theorem ofValue?_of_members (tagged : Tagged e.role role)
    (others : ∀ member ∈ extra, ∃ key, member.1 = some key ∧ key ∉ known)
    (perm : ms.Perm (e.members role ++ extra)) :
    ofValue? (.object ms) = some e.identity := by
  have stands (key : String) (read : key ∈ known) := under_spelled read others perm
  obtain ⟨roles, dirs, names, caLinks⟩ := under_members e role
  have named (member : Option String × Value) (here : member ∈ ms) : member.1.isSome := by
    rcases List.mem_append.mp (perm.mem_iff.mp here) with mine | other
    · exact isSome_of_members e role member mine
    · obtain ⟨key, same, -⟩ := others member other
      exact Option.isSome_iff_exists.mpr ⟨key, same⟩
  refine ofValue?_object.mpr ⟨named, e.role, ⟨e.dir⟩, e.name, e.caLink, ?_, ?_, ?_, ?_, rfl⟩
  · have role := stands "role" (by decide)
    rw [roles] at role
    exact given_role.mpr ⟨_, tagged, List.perm_singleton.mp role⟩
  · have dir := stands "dir" (by decide)
    rw [dirs] at dir
    exact given_dir.mpr (List.perm_singleton.mp dir)
  · have name := stands "name" (by decide)
    rw [names] at name
    exact given_nullable.mpr (eq_of_perm_toList name)
  · have caLink := stands "ca_link" (by decide)
    rw [caLinks] at caLink
    exact given_nullable.mpr (eq_of_perm_toList caLink)

theorem ofValue?_of_places (tagged : Tagged e.role role) :
    ofValue? (.array (e.places role)) = some e.identity := by
  obtain ⟨r, d, name, caLink⟩ := e
  have isRole := role?_eq_some.mpr tagged
  have isDir : dir? (.text (some d)) = some ⟨d⟩ := rfl
  cases name <;> cases caLink <;>
    simp [ofValue?, ofList?, ofPlaces?, places, place?, Value.nullable?_ofNullable, isRole,
      isDir] <;>
    rfl

theorem place?_eq_some {o : Option Value} {given : Option (Option String)} :
    place? Value.nullable? o = some given ↔ o = given.map Value.ofNullable := by
  cases o <;> cases given <;> simp [place?, nullable?_eq_some]

theorem spelled_of_places (h : ofValue? (.array vs) = some i) :
    ∃ e, Spelled e (.array vs) ∧ e.identity = i := by
  simp only [ofValue?, ofList?, Option.ite_none_right_eq_some, ofPlaces?, Option.bind_eq_some_iff,
    Option.map_eq_some_iff, role?_eq_some, dir?_eq_some, place?_eq_some] at h
  obtain ⟨short, r, ⟨role, first, tagged⟩, dir, ⟨v, second, rfl⟩, name, third, caLink, fourth,
    rfl⟩ := h
  have shape : vs = (Entry.mk r dir.text name caLink).places role := by
    match vs with
    | [] => cases first
    | [_] => cases second
    | [_, _] => cases name <;> cases caLink <;> simp_all [places]
    | [_, _, _] => cases name <;> cases caLink <;> simp_all [places]
    | [_, _, _, _] => cases name <;> cases caLink <;> simp_all [places]
    | _ :: _ :: _ :: _ :: _ :: _ =>
      simp only [List.length_cons] at short
      omega
  rw [shape]
  exact ⟨_, .list tagged, rfl⟩

theorem ofValue?_eq_some :
    ofValue? v = some i ↔ ∃ e, Spelled e v ∧ e.identity = i := by
  constructor
  · intro h
    cases v with
    | object ms =>
      obtain ⟨named, r, dir, name, caLink, roles, dirs, names, caLinks, rfl⟩ :=
        ofValue?_object.mp h
      obtain ⟨role, tagged, roles⟩ := given_role.mp roles
      exact ⟨⟨r, dir.text, name, caLink⟩, .ofObject named tagged roles (given_dir.mp dirs)
        (given_nullable.mp names) (given_nullable.mp caLinks), rfl⟩
    | array vs => exact spelled_of_places h
    | _ => cases h
  · rintro ⟨e, spelled, rfl⟩
    cases spelled with
    | object tagged others perm => exact ofValue?_of_members tagged others perm
    | list tagged => exact ofValue?_of_places tagged

inductive Fits : String → Value → Prop
  | role {r : Role} {v : Value} : Tagged r v → Fits "role" v
  | dir {s : String} : Fits "dir" (.text (some s))
  | name {o : Option String} : Fits "name" (.ofNullable o)
  | caLink {o : Option String} : Fits "ca_link" (.ofNullable o)

/-- What is wrong with an object or a list: a role or a directory is missing, a key that is read
    comes twice, or a value does not fit its key or its place. -/
inductive Faulty : Value → Prop
  | missing {key : String} {ms : List (Option String × Value)} :
    key ∈ ["role", "dir"] → (∀ v, (some key, v) ∉ ms) → Faulty (.object ms)
  | repeated {key : String} {v w : Value} {ms : List (Option String × Value)} :
    key ∈ known → [(some key, v), (some key, w)].Sublist ms → Faulty (.object ms)
  | unfit {key : String} {v : Value} {ms : List (Option String × Value)} :
    key ∈ known → (some key, v) ∈ ms → ¬Fits key v → Faulty (.object ms)
  | short {vs : List Value} : vs.length < 2 → Faulty (.array vs)
  | place {n : Nat} {key : String} {v : Value} {vs : List Value} :
    known[n]? = some key → vs[n]? = some v → ¬Fits key v → Faulty (.array vs)

theorem length_under_members {key : String} (read : key ∈ known) (e : Entry) (role : Value) :
    (under key (e.members role)).length ≤ 1 := by
  obtain ⟨roles, dirs, names, caLinks⟩ := under_members e role
  have short (o : Option Value) : o.toList.length ≤ 1 := by cases o <;> simp
  simp only [known, List.mem_cons, List.not_mem_nil, or_false] at read
  rcases read with rfl | rfl | rfl | rfl
  · rw [roles]
    exact Nat.le_refl 1
  · rw [dirs]
    exact Nat.le_refl 1
  · rw [names]
    exact short _
  · rw [caLinks]
    exact short _

theorem fits_members {key : String} (tagged : Tagged e.role role)
    (member : (some key, v) ∈ e.members role) : Fits key v := by
  obtain ⟨r, d, name, caLink⟩ := e
  simp only [members, List.mem_append, List.mem_cons, List.not_mem_nil, or_false,
    Option.mem_toList, Option.map_eq_some_iff, Prod.mk.injEq] at member
  rcases member with ((⟨key, rfl⟩ | ⟨key, rfl⟩) | ⟨name, -, key, rfl⟩) | ⟨caLink, -, key, rfl⟩ <;>
    cases key
  · exact .role tagged
  · exact .dir
  · exact .name
  · exact .caLink

theorem fits_places {key : String} {n : Nat} (tagged : Tagged e.role role)
    (read : known[n]? = some key) (here : (e.places role)[n]? = some v) : Fits key v := by
  obtain ⟨r, d, name, caLink⟩ := e
  match n with
  | 0 =>
    cases read
    cases here
    exact .role tagged
  | 1 =>
    cases read
    cases here
    exact .dir
  | 2 =>
    cases read
    cases name <;> cases caLink <;> cases here <;> exact .name
  | 3 =>
    cases read
    cases name <;> cases caLink <;> cases here <;> exact .caLink
  | n + 4 => cases read

theorem Spelled.sound (spelled : Spelled e v) : ¬Faulty v := by
  intro faulty
  cases spelled with
  | @object role _ _ tagged others perm =>
    have stands (key : String) (read : key ∈ known) := under_spelled read others perm
    cases faulty with
    | missing needed absent =>
      simp only [List.mem_cons, List.not_mem_nil, or_false] at needed
      have front {member : Option String × Value} (mine : member ∈ e.members role) :=
        perm.mem_iff.mpr (List.mem_append_left _ mine)
      rcases needed with rfl | rfl
      · exact absent role (front (by simp [members]))
      · exact absent (.text (some e.dir)) (front (by simp [members]))
    | repeated read twice =>
      have long := (under_sublist twice).length_le
      have short := length_under_members read e role
      rw [(stands _ read).length_eq, List.length_cons, List.length_singleton] at long
      omega
    | unfit read member unfit =>
      have inside := (stands _ read).mem_iff.mp (mem_under.mpr member)
      exact unfit (fits_members tagged (mem_under.mp inside))
  | list tagged =>
    cases faulty with
    | short short =>
      simp only [places, List.length_append, List.length_cons, List.length_nil] at short
      omega
    | place read here unfit => exact unfit (fits_places tagged read here)

theorem mapM_ofValue? {is : List Identity} :
    vs.mapM ofValue? = some is ↔ ∃ es, List.Forall₂ Spelled es vs ∧ es.map identity = is := by
  induction vs generalizing is with
  | nil => simp [eq_comm]
  | cons v vs ih =>
    simp only [List.mapM_cons, Option.bind_eq_bind, Option.bind_eq_some_iff, ofValue?_eq_some, ih,
      Option.pure_def, Option.some.injEq]
    constructor
    · rintro ⟨i, ⟨e, spelled, rfl⟩, is, ⟨es, all, rfl⟩, rfl⟩
      exact ⟨e :: es, .cons spelled all, rfl⟩
    · rintro ⟨es, all, rfl⟩
      cases all with
      | cons spelled all => exact ⟨_, ⟨_, spelled, rfl⟩, _, ⟨_, all, rfl⟩, rfl⟩

end

end Entry

end Identity

namespace Topology

variable {text : String} {vs : List Value} {t b b' : List Char}

/-- A topology is read exactly from spellings of entries, whichever these are, as their identities
    in their order. A faulty entry leaves nothing of the others. -/
theorem parse_entries (written : Written (.value (.array vs)) t) (blank : Reader.Blank b)
    (blank' : Reader.Blank b') (spelled : text.toList = b ++ (t ++ b')) :
    (∀ is, parse text = .ok ⟨is⟩ ↔
      ∃ es, List.Forall₂ Identity.Entry.Spelled es vs ∧ es.map Identity.Entry.identity = is) ∧
    ((∃ v ∈ vs, Identity.Entry.Faulty v) → ∃ failure, parse text = .error (.invalid failure)) := by
  obtain ⟨accepts, refuses⟩ := parse_written written blank blank' spelled
  constructor
  · intro is
    rw [← Identity.Entry.mapM_ofValue?]
    constructor
    · intro parsed
      cases all : vs.mapM Identity.ofValue? with
      | none =>
        obtain ⟨failure, failed⟩ := refuses all
        cases parsed.symm.trans failed
      | some is' =>
        have same := (accepts is' all).symm.trans parsed
        rw [Topology.mk.inj (Except.ok.inj same)]
    · exact accepts is
  · rintro ⟨v, member, faulty⟩
    apply refuses
    cases all : vs.mapM Identity.ofValue? with
    | none => rfl
    | some is =>
      obtain ⟨es, each, -⟩ := Identity.Entry.mapM_ofValue?.mp all
      have sound : List.Forall₂ (fun v (e : Identity.Entry) =>
          ¬Identity.Entry.Faulty v ∧ e.Spelled v) vs es :=
        each.flip.imp fun v e spelled => ⟨spelled.sound, spelled⟩
      exact absurd faulty ((List.forall₂_and_left _ _).mp sound |>.1 v member)

theorem parse_entries_of_peers :
    parse "[[\"peer\",\"d\"],\x7b\"dir\":\"d\",\"x\":[],\"role\":\"peer\"\x7d]" =
      .ok ⟨[⟨.peer, ⟨"d"⟩, "peer", "CA.pem"⟩, ⟨.peer, ⟨"d"⟩, "peer", "CA.pem"⟩]⟩ ∧
    ∃ failure, parse "[\x7b\"role\":\"peer\"\x7d]" = .error (.invalid failure) := by
  have blank := Reader.blank_nil
  have peer := Reader.written_quoted "peer"
  have dir := Reader.written_quoted "d"
  have list := Written.array (.element (.first blank) peer
    (.element (.comma blank blank) dir (.noElements blank)))
  have moved := Written.object (Reader.written_member (.first blank) "dir" dir
    (Reader.written_member (.comma blank blank) "x" (.array (.noElements blank))
      (Reader.written_member (.comma blank blank) "role" peer (.noMembers blank))))
  have both := Written.array (.element (.first blank) list
    (.element (.comma blank blank) moved (.noElements blank)))
  have alone := Written.array (.element (.first blank)
    (.object (Reader.written_member (.first blank) "role" peer (.noMembers blank)))
    (.noElements blank))
  let entry : Identity.Entry := ⟨.peer, "d", none, none⟩
  constructor
  · have spelled : entry.Spelled (.object [(some "dir", .text (some "d")),
        (some "x", .array []), (some "role", .text (some "peer"))]) := by
      refine @Identity.Entry.Spelled.object _ _ _ [(some "x", .array [])] .text ?_
        (List.perm_append_singleton _ [_, _])
      intro member other
      rw [List.mem_singleton] at other
      exact ⟨"x", by rw [other], by decide⟩
    exact ((parse_entries both blank blank (by decide +kernel)).1 _).mpr
      ⟨[entry, entry], .cons (.list .text) (.cons spelled .nil), rfl⟩
  · exact (parse_entries alone blank blank (by decide +kernel)).2
      ⟨_, List.mem_singleton_self _, @Identity.Entry.Faulty.missing "dir" _ (by decide) (by simp)⟩

end Topology

end NetworkCa
