import NetworkCa.Proofs.FileTree.Straight

namespace NetworkCa.FileTree

variable {within within' : Location → Prop} {t t' t'' : FileTree}

structure Confined (within : Location → Prop) (t t' : FileTree) : Prop where
  directories : SameDirectories t t'
  frame : ∀ l, ¬within l → t'.get? l = t.get? l

theorem Confined.refl (within : Location → Prop) (t : FileTree) : Confined within t t :=
  ⟨.refl t, fun _ _ => rfl⟩

theorem Confined.trans (h : Confined within t t') (h' : Confined within t' t'') :
    Confined within t t'' :=
  ⟨h.directories.trans h'.directories,
    fun l outside => (h'.frame l outside).trans (h.frame l outside)⟩

theorem Confined.mono (confined : Confined within t t') (wider : ∀ l, within l → within' l) :
    Confined within' t t' :=
  ⟨confined.directories, fun l outside => confined.frame l fun inside => outside (wider l inside)⟩

theorem FilesChanged.confined (changes : FilesChanged within t t') : Confined within t t' :=
  ⟨changes.sameWays.sameDirectories, fun _ => changes.frame⟩

theorem EntriesRemoved.confined (removal : EntriesRemoved within t t')
    (others : ∀ l, within l → t.get? l ≠ some .directory) : Confined within t t' :=
  ⟨removal.sameDirectories others,
    fun l outside => Decidable.byContradiction fun changed => outside (removal.only l changed).1⟩

theorem confined_of_makeLink {target p : Path} (h : t.makeLink target p = .ok t') :
    Confined (fun l => t.vacancy? p = some l) t t' := by
  obtain ⟨place, vacant, made⟩ := of_makeLink_ok h
  refine ⟨sameDirectories_of_makeLink h, fun l outside => ?_⟩
  rw [made, get?_put_of_ne]
  rintro rfl
  exact outside vacant

end NetworkCa.FileTree
