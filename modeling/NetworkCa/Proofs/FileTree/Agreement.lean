import NetworkCa.Proofs.FileTree.Straight

namespace NetworkCa.FileTree

variable {t t' t'' u u' : FileTree} {X Y : Location → Prop} {purpose : Purpose} {links : Nat}
  {here place : Location} {names : List String} {slash : Bool} {p : Path}

structure AgreeOutside (X : Location → Prop) (t t' : FileTree) : Prop where
  cwd : t'.cwd = t.cwd
  get? : ∀ l, ¬X l → t'.get? l = t.get? l

theorem AgreeOutside.trans (h : AgreeOutside X t t') (h' : AgreeOutside X t' t'') :
    AgreeOutside X t t'' :=
  ⟨h'.cwd.trans h.cwd, fun l outside => (h'.get? l outside).trans (h.get? l outside)⟩

theorem AgreeOutside.mono (agree : AgreeOutside X t t') (wider : ∀ l, X l → Y l) :
    AgreeOutside Y t t' :=
  ⟨agree.cwd, fun l outside => agree.get? l fun inside => outside (wider l inside)⟩

theorem AgreeOutside.wiped {places : List Location} (agree : AgreeOutside X t t')
    (wiped : Wiped places t u) (wiped' : Wiped places t' u') :
    AgreeOutside (fun l => X l ∧ l ∉ places) u u' := by
  refine ⟨wiped'.cwd.trans (agree.cwd.trans wiped.cwd.symm), fun l outside => ?_⟩
  by_cases inside : l ∈ places
  · rw [wiped.gone l inside, wiped'.gone l inside]
  · rw [wiped.kept l inside, wiped'.kept l inside]
    exact agree.get? l fun changed => outside ⟨changed, inside⟩

theorem AgreeOutside.put (agree : AgreeOutside X t t') (place : Location) (e : Entry) :
    AgreeOutside X (t.put place e) (t'.put place e) := by
  refine ⟨agree.cwd, fun l outside => ?_⟩
  by_cases same : l = place
  · subst same
    by_cases root : l = []
    · subst root
      rfl
    · rw [get?_put_self root, get?_put_self root]
  · rw [get?_put_of_ne same, get?_put_of_ne same, agree.get? l outside]

theorem AgreeOutside.sharpen (agree : AgreeOutside X t t') (same : SameDirectories t t') :
    AgreeOutside (fun l => X l ∧ t.get? l ≠ some .directory) t t' := by
  refine ⟨agree.cwd, fun l outside => ?_⟩
  by_cases directory : t.get? l = some .directory
  · rw [directory, (same.iff l).2 directory]
  · exact agree.get? l fun inside => outside ⟨inside, directory⟩

theorem AgreeOutside.lookup (agree : AgreeOutside X t t')
    (avoids : ∀ l ∈ t.route purpose p, ¬X l) : t'.lookup purpose p = t.lookup purpose p :=
  lookup_congr agree.cwd fun l hl => agree.get? l (avoids l hl)

structure SameEntries (t t' : FileTree) : Prop where
  cwd : t'.cwd = t.cwd
  get? : ∀ l, t'.get? l = t.get? l

inductive AlikeOutside {ε : Type} (X : Location → Prop) :
    Except ε FileTree → Except ε FileTree → Prop
  | ok {t t' : FileTree} : AgreeOutside X t t' → AlikeOutside X (.ok t) (.ok t')
  | error (e : ε) : AlikeOutside X (.error e) (.error e)

theorem AgreeOutside.write (agree : AgreeOutside X t t')
    (avoids : ∀ l ∈ t.route .write p, ¬X l) (content : Bytes) :
    AlikeOutside X (t.write p content) (t'.write p content) := by
  rw [FileTree.write, FileTree.write, agree.lookup avoids]
  rcases t.lookup .write p with failure | ⟨l, _ | ⟨mode, old⟩ | target, s⟩ | ⟨l, s⟩
  · exact .error _
  · exact .error _
  · exact .ok (agree.put _ _)
  · exact .error _
  · exact .ok (agree.put _ _)

theorem AgreeOutside.appendFile (agree : AgreeOutside X t t') {source goal : Path}
    (avoids : ∀ p ∈ [source, goal], ∀ l ∈ t.route .reach p, ¬X l) :
    AlikeOutside X (t.appendFile source goal) (t'.appendFile source goal) := by
  have read : t'.read source = t.read source := by
    rw [FileTree.read, FileTree.read, behind, behind, agree.lookup (avoids source (by simp))]
  rw [FileTree.appendFile, FileTree.appendFile, read]
  rcases t.read source with failure | content
  · exact .error _
  dsimp only
  rw [append, append, agree.lookup (avoids goal (by simp))]
  rcases t.lookup .reach goal with failure | ⟨l, _ | ⟨mode, old⟩ | target, s⟩ | ⟨l, s⟩
  · exact .error _
  · exact .error _
  · exact .ok (agree.put _ _)
  · exact .error _
  · exact .error _

theorem routeFrom_of_sameWays (same : SameWays t t') (purpose : Purpose) (links : Nat)
    (here : Location) (names : List String) (slash : Bool) :
    t'.routeFrom purpose links here names slash = t.routeFrom purpose links here names slash := by
  induction links, here, names, slash using walk_induction with
  | nil links here slash => cases links <;> rfl
  | cons links here name rest slash ih ihLinks =>
    rw [routeFrom_cons, routeFrom_cons]
    congr 1
    cases step : t.move purpose here name rest slash with
    | halt result =>
      cases step' : t'.move purpose here name rest slash with
      | halt result => rfl
      | enter directory =>
        rw [same.symm.keeps.move (by simp [step']), step'] at step
        cases step
      | jump start onto ending =>
        rw [same.symm.keeps.move (by simp [step']), step'] at step
        cases step
    | enter directory =>
      rw [same.keeps.move (by simp [step]), step]
      exact ih directory
    | jump start onto ending =>
      rw [same.keeps.move (by simp [step]), step]
      cases links with
      | zero => rfl
      | succ fewer => exact ihLinks fewer rfl start onto ending

theorem route_of_sameWays (same : SameWays t t') (purpose : Purpose) (p : Path) :
    t'.route purpose p = t.route purpose p := by
  rw [route, route, start_congr same.cwd]
  exact routeFrom_of_sameWays same _ _ _ _ _

end NetworkCa.FileTree
