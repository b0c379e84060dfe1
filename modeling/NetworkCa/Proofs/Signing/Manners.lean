import NetworkCa.Proofs.FileTree.Changes
import NetworkCa.Proofs.Signing.Work

namespace NetworkCa

/-- Where work may change files that makes `out` anew and writes to `serial`. -/
def Anew (out serial : Path) (t : FileTree) (l : Location) : Prop :=
  t.vacancy? out = some l ∨ t.goal? serial = some l

def Overwritten (out serial : Path) (t : FileTree) (l : Location) : Prop :=
  t.goal? out = some l ∨ t.goal? serial = some l

namespace Work

variable {σ ε δ α β : Type} {within : FileTree → Location → Prop} {out serial : Path}

/-- Work that changes nothing but regular files, at places that the tree before it gives. -/
def ChangesFiles (within : FileTree → Location → Prop) (x : Work σ ε α) : Prop :=
  ∀ w : World σ, w.tree.FilesChanged (within w.tree) (x.runOn w).2.tree

def Steady (within : FileTree → Location → Prop) : Prop :=
  ∀ t t' l, FileTree.FilesChanged (within t) t t' → within t' l → within t l

theorem steady_anew (out serial : Path) : Steady (Anew out serial) := by
  intro t t' l changes inside
  rcases inside with vacant | goal
  · exact (changes.vacancy?_before vacant).elim .inl id
  · rw [FileTree.goal?_of_sameWays changes.sameWays] at goal
    exact .inr goal

theorem steady_overwritten (out serial : Path) : Steady (Overwritten out serial) := by
  intro t t' l changes inside
  simpa only [Overwritten, FileTree.goal?_of_sameWays changes.sameWays] using inside

theorem ChangesFiles.of_tree_eq {x : Work σ ε α} (h : ∀ w, (x.runOn w).2.tree = w.tree) :
    ChangesFiles within x := by
  intro w
  rw [h]
  exact .refl _ _

theorem ChangesFiles.bind {x : Work σ ε α} {f : α → Work σ ε β} (steady : Steady within)
    (first : ChangesFiles within x) (next : ∀ a, ChangesFiles within (f a)) :
    ChangesFiles within (x >>= f) := by
  intro w
  have changes := first w
  rw [runOn_bind]
  rcases ran : x.runOn w with ⟨e | a, between⟩ <;> rw [ran] at changes
  · exact changes
  · exact changes.trans ((next a between).mono fun l inside => steady _ _ l changes inside)

theorem ChangesFiles.change {blame : FileFailure → ε}
    {f : FileTree → Except FileFailure FileTree}
    (h : ∀ t t', f t = .ok t' → t.FilesChanged (within t) t') :
    ChangesFiles within (change blame f : Work σ ε Unit) := by
  intro w
  rw [runOn_change]
  rcases done : f w.tree with failure | t
  · exact .refl _ _
  · exact h _ _ done

structure Writes (serial : Path) (x : Work σ ε α) : Prop where
  changes : ∀ w : World σ,
    w.tree.FilesChanged (fun l => w.tree.goal? serial = some l) (x.runOn w).2.tree
  keeps : ∀ (w : World σ) l, (x.runOn w).2.tree.get? l = none → w.tree.get? l = none

structure Makes (out serial : Path) (x : Work σ ε Unit) : Prop where
  changes : ChangesFiles (Anew out serial) x
  makes : ∀ w after, x.runOn w = (.ok (), after) → ∃ place mode content,
    w.tree.vacancy? out = some place ∧ after.tree.get? place = some (.file mode content)

theorem Writes.of_tree_eq {x : Work σ ε α} (h : ∀ w, (x.runOn w).2.tree = w.tree) :
    Writes serial x := by
  refine ⟨fun w => ?_, fun w l free => ?_⟩
  · rw [h]
    exact .refl _ _
  · rwa [h] at free

theorem Writes.pure (a : α) : Writes serial (Pure.pure a : Work σ ε α) := .of_tree_eq fun _ => rfl

theorem Writes.throw (e : ε) : Writes serial (MonadExcept.throw e : Work σ ε α) :=
  .of_tree_eq fun _ => rfl

theorem Writes.tree : Writes serial (tree : Work σ ε FileTree) := .of_tree_eq fun _ => rfl

theorem Writes.lift (blame : δ → ε) (r : Except δ α) :
    Writes serial (lift blame r : Work σ ε α) := by
  cases r <;> exact .of_tree_eq fun _ => rfl

theorem Writes.bind {x : Work σ ε α} {f : α → Work σ ε β} (first : Writes serial x)
    (next : ∀ a, Writes serial (f a)) : Writes serial (x >>= f) := by
  refine ⟨fun w => ?_, fun w l free => ?_⟩
  · have changes := first.changes w
    rw [runOn_bind]
    rcases ran : x.runOn w with ⟨e | a, between⟩ <;> rw [ran] at changes
    · exact changes
    · have onward := (next a).changes between
      simp only [FileTree.goal?_of_sameWays changes.sameWays] at onward
      exact changes.trans onward
  · have keeps := first.keeps w l
    rw [runOn_bind] at free
    rcases ran : x.runOn w with ⟨e | a, between⟩ <;> rw [ran] at keeps free
    · exact keeps free
    · exact keeps ((next a).keeps between l free)

theorem Writes.look (blame : FileFailure → ε) (f : FileTree → Except FileFailure α) :
    Writes serial (look blame f : Work σ ε α) := by
  apply Writes.tree.bind
  intro t
  rcases f t with failure | a
  · exact .throw _
  · exact .pure _

theorem Writes.write (blame : FileFailure → ε) (content : Bytes) :
    Writes serial (change blame (·.write serial content) : Work σ ε Unit) := by
  refine ⟨fun w => ?_, fun w l free => ?_⟩
  · rw [runOn_change]
    rcases done : w.tree.write serial content with failure | t
    · exact .refl _ _
    · exact (FileTree.FilesChanged.of_write done).1
  · rw [runOn_change] at free
    rcases done : w.tree.write serial content with failure | t <;> rw [done] at free
    · exact free
    · obtain ⟨_, place, mode, goal, rfl⟩ := FileTree.FilesChanged.of_write done
      dsimp only at free
      by_cases same : l = place
      · subst same
        rw [FileTree.get?_put_of_unway (FileTree.way?_of_goal? goal)] at free
        cases free
      · rwa [FileTree.get?_put_of_ne same] at free

theorem Makes.throw (e : ε) : Makes out serial (MonadExcept.throw e : Work σ ε Unit) :=
  ⟨.of_tree_eq fun _ => rfl, fun _ _ h => by cases h⟩

theorem Makes.create (blame : FileFailure → ε) (mode : FileMode) (content : Bytes) :
    Makes out serial (change blame (·.create out mode content) : Work σ ε Unit) := by
  refine ⟨.change fun t t' created => ?_, fun w after done => ?_⟩
  · exact (FileTree.FilesChanged.of_create created).1.mono fun l => .inl
  · rw [runOn_change] at done
    rcases created : w.tree.create out mode content with failure | t <;> rw [created] at done <;>
      cases done
    obtain ⟨_, place, vacant, made⟩ := FileTree.FilesChanged.of_create created
    exact ⟨place, mode, content, vacant, made⟩

theorem Writes.andMakes {x : Work σ ε α} {f : α → Work σ ε Unit} (first : Writes serial x)
    (next : ∀ a, Makes out serial (f a)) : Makes out serial (x >>= f) := by
  have changes : ChangesFiles (Anew out serial) x :=
    fun w => (first.changes w).mono fun l => .inr
  refine ⟨changes.bind (steady_anew out serial) fun a => (next a).changes, ?_⟩
  intro w after done
  obtain ⟨a, between, ran, done⟩ := of_runOn_bind_ok done
  obtain ⟨place, mode, content, vacant, made⟩ := (next a).makes between after done
  have ways := (first.changes w).sameWays
  have free := first.keeps w place
  rw [ran] at ways free
  have still := free (FileTree.get?_of_vacancy? vacant)
  refine ⟨place, mode, content, ?_, made⟩
  rw [FileTree.vacancy?_eq_some] at vacant ⊢
  apply FileTree.lookup_of_keepsWays ways.symm.keeps vacant
  rw [FileTree.Spot.place, still, FileTree.get?_of_lookup_free vacant]

structure Adds (out serial : Path) (x : Work σ ε Unit) : Prop extends Makes out serial x where
  keeps : ∀ (w : World σ) l, (x.runOn w).2.tree.get? l = none → w.tree.get? l = none

theorem Adds.throw (e : ε) : Adds out serial (MonadExcept.throw e : Work σ ε Unit) :=
  ⟨.throw e, fun _ _ free => free⟩

theorem Adds.create (blame : FileFailure → ε) (mode : FileMode) (content : Bytes) :
    Adds out serial (change blame (·.create out mode content) : Work σ ε Unit) := by
  refine ⟨.create blame mode content, fun w l free => ?_⟩
  rw [runOn_change] at free
  rcases created : w.tree.create out mode content with failure | t <;> rw [created] at free
  · exact free
  · obtain ⟨changes, place, vacant, made⟩ := FileTree.FilesChanged.of_create created
    dsimp only at free
    by_cases same : l = place
    · subst same
      exact FileTree.get?_of_vacancy? vacant
    · rw [← free]
      refine (changes.frame fun inside => ?_).symm
      exact same (Option.some.inj (inside.symm.trans vacant))

theorem Writes.andAdds {x : Work σ ε α} {f : α → Work σ ε Unit} (first : Writes serial x)
    (next : ∀ a, Adds out serial (f a)) : Adds out serial (x >>= f) := by
  refine ⟨first.andMakes fun a => (next a).toMakes, fun w l free => ?_⟩
  have keeps := first.keeps w l
  rw [runOn_bind] at free
  rcases ran : x.runOn w with ⟨e | a, between⟩ <;> rw [ran] at keeps free
  · exact keeps free
  · exact keeps ((next a).keeps between l free)

/-- Work that makes the file `out` and succeeds, or fails and writes at most where `serial` leads. -/
structure AllOrNothing (out serial : Path) (x : Work σ ε Unit) : Prop
    extends Makes out serial x where
  fails : ∀ w e after, x.runOn w = (.error e, after) →
    w.tree.FilesChanged (fun l => w.tree.goal? serial = some l) after.tree

theorem Makes.blaming {x : Work σ δ Unit} (h : Makes out serial x) (blame : δ → ε) :
    Makes out serial (blaming blame x) := by
  refine ⟨h.changes, fun w after done => ?_⟩
  rw [runOn_blaming] at done
  rcases ran : x.runOn w with ⟨e | _, between⟩ <;> rw [ran] at done <;> cases done
  exact h.makes w after ran

theorem Adds.blaming {x : Work σ δ Unit} (h : Adds out serial x) (blame : δ → ε) :
    Adds out serial (blaming blame x) := ⟨h.toMakes.blaming blame, h.keeps⟩

theorem AllOrNothing.blaming {x : Work σ δ Unit} (h : AllOrNothing out serial x) (blame : δ → ε) :
    AllOrNothing out serial (blaming blame x) := by
  refine ⟨h.toMakes.blaming blame, fun w e after failed => ?_⟩
  rw [runOn_blaming] at failed
  rcases ran : x.runOn w with ⟨e | _, between⟩ <;> rw [ran] at failed <;> cases failed
  exact h.fails w _ after ran

/-- Work that writes at most to `serial` until it creates `out` at its end, or fails. -/
inductive Outputs (out serial : Path) : Work σ ε Unit → Prop where
  | throw (e : ε) : Outputs out serial (MonadExcept.throw e)
  | create (blame : FileFailure → ε) (mode : FileMode) (content : Bytes) :
    Outputs out serial (change blame (·.create out mode content))
  | after {α : Type} {x : Work σ ε α} {f : α → Work σ ε Unit} (first : Writes serial x)
    (next : ∀ a, Outputs out serial (f a)) : Outputs out serial (x >>= f)

theorem Outputs.adds {x : Work σ ε Unit} (h : Outputs out serial x) : Adds out serial x := by
  induction h with
  | throw e => exact .throw e
  | create blame mode content => exact .create blame mode content
  | after first _ ih => exact first.andAdds ih

theorem Outputs.allOrNothing {x : Work σ ε Unit} (h : Outputs out serial x) :
    AllOrNothing out serial x := by
  refine ⟨h.adds.toMakes, ?_⟩
  induction h with
  | throw e =>
    intro w _ after failed
    cases failed
    exact .refl _ _
  | create blame mode content =>
    intro w e after failed
    rw [runOn_change] at failed
    rcases created : w.tree.create out mode content with failure | t <;> rw [created] at failed <;>
      cases failed
    exact .refl _ _
  | @after α x f first _ ih =>
    intro w e after failed
    have changes := first.changes w
    rw [runOn_bind] at failed
    rcases ran : x.runOn w with ⟨e' | a, between⟩ <;> rw [ran] at changes failed
    · cases failed
      exact changes
    · have onward := ih a between e after failed
      simp only [FileTree.goal?_of_sameWays changes.sameWays] at onward
      exact changes.trans onward

end Work

/-- The call counts with the file that `serial` leads to, if it counts at all. -/
def SigningCall.CountsAt (serial : Path) : SigningCall → Prop
  | .sign _ authority _ _ _ _ => authority.serial = serial
  | _ => True

namespace Signer

variable {σ : Type} {s : Signer σ} {serial : Path} {c : SigningCall} {w after : World σ}
  {result : Except SigningError Unit}

/-- A signer that makes the output of a call anew, failing where something is already, and
    touches nothing else but the serial file. -/
def MakesAnew (s : Signer σ) (serial : Path) : Prop :=
  ∀ c : SigningCall, c.CountsAt serial → Work.Makes c.out serial (s c)

/-- A signer that makes the output of a call anew, writes nothing else but the serial file, and
    removes nothing. -/
def Creates (s : Signer σ) (serial : Path) : Prop :=
  ∀ c : SigningCall, c.CountsAt serial → Work.Adds c.out serial (s c)

theorem Creates.makesAnew (signer : s.Creates serial) : s.MakesAnew serial :=
  fun c counts => (signer c counts).toMakes

/-- A signer that makes the output of a call anew exactly if it succeeds, and writes nothing else
    but the serial file. -/
def AllOrNothing (s : Signer σ) (serial : Path) : Prop :=
  ∀ c : SigningCall, c.CountsAt serial → Work.AllOrNothing c.out serial (s c)

def WritesOnly (s : Signer σ) (serial : Path) : Prop :=
  ∀ c : SigningCall, c.CountsAt serial → Work.ChangesFiles (Overwritten c.out serial) (s c)

def FilesOnly (s : Signer σ) (serial : Path) : Prop :=
  ∀ c : SigningCall, c.CountsAt serial → ∀ w : World σ, w.tree.SameWays ((s c).runOn w).2.tree

theorem WritesOnly.filesOnly (signer : s.WritesOnly serial) : s.FilesOnly serial :=
  fun c counts w => (signer c counts w).sameWays

theorem MakesAnew.writesOnly (signer : s.MakesAnew serial) : s.WritesOnly serial := by
  intro c counts w
  apply ((signer c counts).changes w).mono
  rintro l (vacant | goal)
  · exact .inl (FileTree.goal?_of_vacancy? vacant)
  · exact .inr goal

theorem MakesAnew.sameWays_of_call (signer : s.MakesAnew serial)
    (called : (s c).runOn w = (result, after)) (counts : c.CountsAt serial) :
    w.tree.SameWays after.tree := by
  have ways := ((signer c counts).changes w).sameWays
  rwa [called] at ways

theorem MakesAnew.of_call_ok (signer : s.MakesAnew serial)
    (called : (s c).runOn w = (.ok (), after)) (counts : c.CountsAt serial) :
    ∃ place mode content, w.tree.vacancy? c.out = some place ∧
      after.tree.get? place = some (.file mode content) :=
  (signer c counts).makes w after called

theorem MakesAnew.get?_of_call (signer : s.MakesAnew serial)
    (called : (s c).runOn w = (result, after)) (counts : c.CountsAt serial) {place : Location}
    {e : Entry} (entry : w.tree.get? place = some e) (other : w.tree.goal? serial ≠ some place) :
    after.tree.get? place = some e := by
  have changes := (signer c counts).changes w
  rw [called] at changes
  rw [← entry]
  apply changes.frame
  rintro (vacant | goal)
  · cases (FileTree.get?_of_vacancy? vacant).symm.trans entry
  · exact other goal

def stamping (content number : Bytes) (serial : Path) : Signer σ := fun c => do
  Work.change (.io serial) (·.write serial number)
  Work.change (.io c.out) (·.create c.out .plain content)

theorem stamping_outputs (content number : Bytes) (serial : Path) (c : SigningCall) :
    Work.Outputs c.out serial ((stamping content number serial : Signer σ) c) :=
  .after (.write _ _) fun _ => .create _ _ _

theorem stamping_creates (content number : Bytes) (serial : Path) :
    (stamping content number serial : Signer σ).Creates serial :=
  fun c _ => (stamping_outputs content number serial c).adds

theorem stamping_makesAnew (content number : Bytes) (serial : Path) :
    (stamping content number serial : Signer σ).MakesAnew serial :=
  (stamping_creates content number serial).makesAnew

end Signer

end NetworkCa
