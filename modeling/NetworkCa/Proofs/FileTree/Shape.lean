import NetworkCa.FileTree.Tidy
import NetworkCa.Proofs.FileTree.Walk

namespace NetworkCa

inductive Matching {ε α : Type} (R : α → α → Prop) : Except ε α → Except ε α → Prop
  | ok {a b : α} : R a b → Matching R (.ok a) (.ok b)
  | error (e : ε) : Matching R (.error e) (.error e)

inductive Entry.Alike : Entry → Entry → Prop
  | directory : Alike .directory .directory
  | file (mode : FileMode) (content content' : Bytes) :
    Alike (.file mode content) (.file mode content')
  | link (target : Path) : Alike (.link target) (.link target)

theorem Entry.Alike.refl (e : Entry) : e.Alike e := by
  cases e with
  | directory => exact .directory
  | file mode content => exact .file mode content content
  | link target => exact .link target

theorem Entry.Alike.isDirectory {e e' : Entry} (h : e.Alike e') :
    e'.isDirectory = e.isDirectory := by
  cases h <;> rfl

namespace FileTree

inductive Spot.Alike : Spot → Spot → Prop
  | taken (place : Location) {e e' : Entry} (slash : Bool) :
    e.Alike e' → Alike (.taken place e slash) (.taken place e' slash)
  | free (place : Location) (slash : Bool) : Alike (.free place slash) (.free place slash)

inductive Move.Alike : Move → Move → Prop
  | halt {result result' : Except FileFailure Spot} :
    Matching Spot.Alike result result' → Alike (.halt result) (.halt result')
  | enter (directory : Location) : Alike (.enter directory) (.enter directory)
  | jump (start : Location) (names : List String) (slash : Bool) :
    Alike (.jump start names slash) (.jump start names slash)

/-- The same entries in the same places, but for what is in the files. -/
structure SameShape (t t' : FileTree) : Prop where
  cwd : t'.cwd = t.cwd
  get? : ∀ l, Option.Rel Entry.Alike (t.get? l) (t'.get? l)

variable {t t' : FileTree} {purpose : Purpose} {links : Nat} {here place : Location}
  {name : String} {names rest : List String} {slash : Bool} {found found' : Option Entry} {p : Path}

theorem SameShape.refl (t : FileTree) : SameShape t t := by
  refine ⟨rfl, fun l => ?_⟩
  cases t.get? l with
  | none => exact .none
  | some e => exact .some (.refl e)

theorem SameShape.put (same : SameShape t t') (place : Location) {e e' : Entry}
    (alike : e.Alike e') : SameShape (t.put place e) (t'.put place e') := by
  refine ⟨same.cwd, fun l => ?_⟩
  by_cases here : l = place
  · subst here
    by_cases root : l = []
    · subst root
      exact .some .directory
    · rw [get?_put_self root, get?_put_self root]
      exact .some alike
  · rw [get?_put_of_ne here, get?_put_of_ne here]
    exact same.get? l

theorem SameShape.erase (same : SameShape t t') (place : Location) :
    SameShape (t.erase place) (t'.erase place) := by
  refine ⟨same.cwd, fun l => ?_⟩
  by_cases root : l = []
  · subst root
    exact .some .directory
  by_cases here : l = place
  · subst here
    rw [get?_erase_self root, get?_erase_self root]
    exact .none
  · rw [get?_erase_of_ne here, get?_erase_of_ne here]
    exact same.get? l

theorem arrive_alike (h : Option.Rel Entry.Alike found found') :
    Matching Spot.Alike (arrive purpose place slash found) (arrive purpose place slash found') := by
  cases h with
  | none =>
    cases purpose
    · exact .error _
    · exact .error _
    · exact .ok (.free place slash)
    · exact .ok (.free place slash)
  | some alike =>
    have there := Spot.Alike.taken place slash alike
    cases purpose
    · unfold arrive
      dsimp only
      rw [alike.isDirectory]
      split
      · exact .error _
      · exact .ok there
    · unfold arrive
      dsimp only
      rw [alike.isDirectory]
      split
      · exact .error _
      · exact .ok there
    · exact .ok there
    · exact .ok there

theorem meet_alike (h : Option.Rel Entry.Alike found found') :
    Move.Alike (meet purpose here place rest slash found)
      (meet purpose here place rest slash found') := by
  have ends : Matching Spot.Alike (arrive purpose place slash found)
    (arrive purpose place slash found') := arrive_alike h
  unfold meet
  cases h with
  | none =>
    dsimp only
    split
    · exact .halt ends
    · exact .halt (.error _)
  | some alike =>
    cases alike with
    | directory =>
      dsimp only
      split
      · exact .halt ends
      · exact .enter place
    | file mode content content' =>
      dsimp only
      split
      · exact .halt ends
      · exact .halt (.error _)
    | link target =>
      dsimp only
      split
      · split
        · exact .jump _ _ _
        · exact .halt ends
      · exact .jump _ _ _

theorem SameShape.move (same : SameShape t t') (purpose : Purpose) (here : Location)
    (name : String) (rest : List String) (slash : Bool) :
    Move.Alike (t.move purpose here name rest slash) (t'.move purpose here name rest slash) := by
  unfold FileTree.move
  split
  · exact .enter here
  split
  · exact .enter here.parent
  split
  · exact .halt (.error _)
  · exact meet_alike (same.get? _)

theorem SameShape.walk (same : SameShape t t') (purpose : Purpose) (links : Nat) (here : Location)
    (names : List String) (slash : Bool) :
    Matching Spot.Alike (t.walk purpose links here names slash)
      (t'.walk purpose links here names slash) := by
  induction links, here, names, slash using walk_induction with
  | nil links here slash =>
    rw [walk_nil, walk_nil]
    exact .ok (.taken here slash .directory)
  | cons links here name rest slash ih ihLinks =>
    have step := same.move purpose here name rest slash
    cases first : t.move purpose here name rest slash with
    | halt result =>
      rw [first] at step
      cases second : t'.move purpose here name rest slash <;> rw [second] at step <;> cases step
      next alike =>
      rw [walk_halt first, walk_halt second]
      exact alike
    | enter directory =>
      rw [first] at step
      cases second : t'.move purpose here name rest slash <;> rw [second] at step <;> cases step
      rw [walk_enter first, walk_enter second]
      exact ih directory
    | jump start onto ending =>
      rw [first] at step
      cases second : t'.move purpose here name rest slash <;> rw [second] at step <;> cases step
      cases links with
      | zero =>
        rw [walk_jump_zero first, walk_jump_zero second]
        exact .error _
      | succ fewer =>
        rw [walk_jump_succ first, walk_jump_succ second]
        exact ihLinks fewer rfl start onto ending

theorem SameShape.lookup (same : SameShape t t') (purpose : Purpose) (p : Path) :
    Matching Spot.Alike (t.lookup purpose p) (t'.lookup purpose p) := by
  unfold FileTree.lookup
  rw [same.cwd]
  split
  · exact .error _
  split
  · exact .error _
  split
  · exact .error _
  · exact same.walk _ _ _ _ _

theorem SameShape.behind (same : SameShape t t') (p : Path) :
    Matching Entry.Alike (t.behind p) (t'.behind p) := by
  have looked := same.lookup .reach p
  unfold FileTree.behind
  generalize t.lookup .reach p = found at looked ⊢
  generalize t'.lookup .reach p = found' at looked ⊢
  cases looked with
  | error e => exact .error e
  | ok spot =>
    cases spot with
    | taken place slash alike => exact .ok alike
    | free place slash => exact .error _

theorem SameShape.entryAt (same : SameShape t t') (p : Path) :
    Matching Entry.Alike (t.entryAt p) (t'.entryAt p) := by
  have looked := same.lookup .inspect p
  unfold FileTree.entryAt
  generalize t.lookup .inspect p = found at looked ⊢
  generalize t'.lookup .inspect p = found' at looked ⊢
  cases looked with
  | error e => exact .error e
  | ok spot =>
    cases spot with
    | taken place slash alike => exact .ok alike
    | free place slash => exact .error _

theorem SameShape.exists? (same : SameShape t t') (p : Path) : t'.exists? p = t.exists? p := by
  have behind := same.behind p
  unfold FileTree.exists?
  generalize t.behind p = found at behind ⊢
  generalize t'.behind p = found' at behind ⊢
  cases behind <;> rfl

theorem SameShape.isFile (same : SameShape t t') (p : Path) : t'.isFile p = t.isFile p := by
  have behind := same.behind p
  unfold FileTree.isFile
  generalize t.behind p = found at behind ⊢
  generalize t'.behind p = found' at behind ⊢
  cases behind with
  | error e => rfl
  | ok alike => cases alike <;> rfl

theorem SameShape.remove (same : SameShape t t') (p : Path) :
    Matching SameShape (t.remove p) (t'.remove p) := by
  have looked := same.lookup .occupy p
  unfold FileTree.remove
  generalize t.lookup .occupy p = found at looked ⊢
  generalize t'.lookup .occupy p = found' at looked ⊢
  cases looked with
  | error e => exact .error e
  | ok spot =>
    cases spot with
    | taken place slash alike =>
      cases alike with
      | directory => exact .error _
      | file mode content content' =>
        dsimp only
        split
        · exact .error _
        · exact .ok (same.erase place)
      | link target =>
        dsimp only
        split
        · exact .error _
        · exact .ok (same.erase place)
    | free place slash => exact .error _

theorem SameShape.removeStale (same : SameShape t t') (p : Path) :
    Matching SameShape ((t.removeStale p).map (·.2)) ((t'.removeStale p).map (·.2)) := by
  have there := same.entryAt p
  have removed := same.remove p
  unfold FileTree.removeStale FileTree.clearing
  generalize t.entryAt p = found at there ⊢
  generalize t'.entryAt p = found' at there ⊢
  generalize t.remove p = after at removed ⊢
  generalize t'.remove p = after' at removed ⊢
  cases there with
  | error e => cases e <;> first | exact .ok same | exact .error _
  | ok alike =>
    cases removed with
    | error e => exact .error _
    | ok after => exact .ok after

theorem SameShape.makeDirectory (same : SameShape t t') (p : Path) :
    Matching SameShape (t.makeDirectory p) (t'.makeDirectory p) := by
  have looked := same.lookup .occupy p
  unfold FileTree.makeDirectory
  generalize t.lookup .occupy p = found at looked ⊢
  generalize t'.lookup .occupy p = found' at looked ⊢
  cases looked with
  | error e => exact .error e
  | ok spot =>
    cases spot with
    | taken place slash alike => exact .error _
    | free place slash => exact .ok (same.put place .directory)

theorem SameShape.ensureDirectory (same : SameShape t t') (p : Path) :
    Matching SameShape (t.ensureDirectory p) (t'.ensureDirectory p) := by
  have there := same.entryAt p
  have made := same.makeDirectory p
  unfold FileTree.ensureDirectory
  generalize t.entryAt p = found at there ⊢
  generalize t'.entryAt p = found' at there ⊢
  generalize t.makeDirectory p = after at made ⊢
  generalize t'.makeDirectory p = after' at made ⊢
  cases there with
  | ok alike => exact .ok same
  | error e =>
    cases made with
    | error e => exact .error _
    | ok after => exact .ok after

theorem SameShape.makeLink (same : SameShape t t') (target p : Path) :
    Matching SameShape (t.makeLink target p) (t'.makeLink target p) := by
  have looked := same.lookup .occupy p
  unfold FileTree.makeLink
  generalize t.lookup .occupy p = found at looked ⊢
  generalize t'.lookup .occupy p = found' at looked ⊢
  split
  · exact .error _
  split
  · exact .error _
  split
  · exact .error _
  cases looked with
  | error e => exact .error e
  | ok spot =>
    cases spot with
    | taken place slash alike => exact .error _
    | free place slash =>
      dsimp only
      split
      · exact .error _
      · exact .ok (same.put place (.link target))

theorem SameShape.append (same : SameShape t t') (p : Path) (content content' : Bytes) :
    Matching SameShape (t.append p content) (t'.append p content') := by
  have looked := same.lookup .reach p
  unfold FileTree.append
  generalize t.lookup .reach p = found at looked ⊢
  generalize t'.lookup .reach p = found' at looked ⊢
  cases looked with
  | error e => exact .error e
  | ok spot =>
    cases spot with
    | taken place slash alike =>
      cases alike with
      | directory => exact .error _
      | file mode old old' => exact .ok (same.put place (.file mode _ _))
      | link target => exact .error _
    | free place slash => exact .error _

theorem SameShape.appendFile (same : SameShape t t') (source goal : Path) :
    Matching SameShape (t.appendFile source goal) (t'.appendFile source goal) := by
  have behind := same.behind source
  unfold FileTree.appendFile FileTree.read
  generalize t.behind source = found at behind ⊢
  generalize t'.behind source = found' at behind ⊢
  cases behind with
  | error e => exact .error _
  | ok alike =>
    cases alike with
    | directory => exact .error _
    | link target => exact .error _
    | file mode content content' =>
      have longer := same.append goal content content'
      dsimp only
      generalize t.append goal content = after at longer ⊢
      generalize t'.append goal content' = after' at longer ⊢
      cases longer with
      | error e => exact .error _
      | ok after => exact .ok after

theorem SameShape.write (same : SameShape t t') (p : Path) (content content' : Bytes) :
    Matching SameShape (t.write p content) (t'.write p content') := by
  have looked := same.lookup .write p
  unfold FileTree.write
  generalize t.lookup .write p = found at looked ⊢
  generalize t'.lookup .write p = found' at looked ⊢
  cases looked with
  | error e => exact .error e
  | ok spot =>
    cases spot with
    | taken place slash alike =>
      cases alike with
      | directory => exact .error _
      | file mode old old' => exact .ok (same.put place (.file mode _ _))
      | link target => exact .error _
    | free place slash => exact .ok (same.put place (.file .plain _ _))

/-- What is asked of files and done to them around the work of a signer cannot tell related trees
    apart, and leaves related trees. -/
structure Respected (R : FileTree → FileTree → Prop) : Prop where
  cwd : ∀ {t t'}, R t t' → t'.cwd = t.cwd
  exists? : ∀ {t t'}, R t t' → ∀ p, t'.exists? p = t.exists? p
  isFile : ∀ {t t'}, R t t' → ∀ p, t'.isFile p = t.isFile p
  removeStale : ∀ {t t'}, R t t' → ∀ p,
    Matching R ((t.removeStale p).map (·.2)) ((t'.removeStale p).map (·.2))
  ensureDirectory : ∀ {t t'}, R t t' → ∀ p, Matching R (t.ensureDirectory p) (t'.ensureDirectory p)
  makeLink : ∀ {t t'}, R t t' → ∀ target p,
    Matching R (t.makeLink target p) (t'.makeLink target p)
  appendFile : ∀ {t t'}, R t t' → ∀ source goal,
    Matching R (t.appendFile source goal) (t'.appendFile source goal)

theorem respected_sameShape : Respected SameShape where
  cwd same := same.cwd
  exists? same := same.exists?
  isFile same := same.isFile
  removeStale same := same.removeStale
  ensureDirectory same := same.ensureDirectory
  makeLink same := same.makeLink
  appendFile same := same.appendFile

theorem matching_refl {ε α : Type} (r : Except ε α) : Matching Eq r r := by
  cases r with
  | ok a => exact .ok rfl
  | error e => exact .error e

theorem respected_eq : Respected Eq := by
  constructor
  case removeStale | ensureDirectory | makeLink | appendFile =>
    rintro t _ rfl
    intros
    exact matching_refl _
  all_goals
    rintro t _ rfl
    first | rfl | exact fun _ => rfl

end FileTree

end NetworkCa
