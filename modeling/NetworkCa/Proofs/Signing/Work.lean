import NetworkCa.Signing.Basic

namespace NetworkCa

instance instDecidableEqExcept {ε α : Type} [DecidableEq ε] [DecidableEq α] :
    DecidableEq (Except ε α)
  | .ok a, .ok b => decidable_of_iff (a = b) ⟨congrArg _, Except.ok.inj⟩
  | .error d, .error e => decidable_of_iff (d = e) ⟨congrArg _, Except.error.inj⟩
  | .ok _, .error _ => isFalse nofun
  | .error _, .ok _ => isFalse nofun

theorem eq_ok_of_toOption {ε α : Type} {r : Except ε α} {a : α} (h : r.toOption = some a) :
    r = .ok a := by
  cases r <;> cases h
  rfl

namespace Work

variable {σ ε δ α β : Type}

@[simp] theorem runOn_pure (a : α) (w : World σ) : (pure a : Work σ ε α).runOn w = (.ok a, w) := rfl

@[simp] theorem runOn_throw (e : ε) (w : World σ) :
    (throw e : Work σ ε α).runOn w = (.error e, w) := rfl

@[simp] theorem runOn_tree (w : World σ) : (tree : Work σ ε FileTree).runOn w = (.ok w.tree, w) :=
  rfl

theorem runOn_bind (x : Work σ ε α) (f : α → Work σ ε β) (w : World σ) :
    (x >>= f).runOn w =
      match x.runOn w with
      | (.ok a, after) => (f a).runOn after
      | (.error e, after) => (.error e, after) := by
  change StateT.run (ExceptT.bindCont f (x.runOn w).1) (x.runOn w).2 = _
  rcases x.runOn w with ⟨_ | _, _⟩ <;> rfl

theorem runOn_bind_ok {x : Work σ ε α} {w after : World σ} {a : α} (f : α → Work σ ε β)
    (h : x.runOn w = (.ok a, after)) : (x >>= f).runOn w = (f a).runOn after := by
  rw [runOn_bind, h]

theorem runOn_bind_error {x : Work σ ε α} {w after : World σ} {e : ε} (f : α → Work σ ε β)
    (h : x.runOn w = (.error e, after)) : (x >>= f).runOn w = (.error e, after) := by
  rw [runOn_bind, h]

theorem of_runOn_bind_ok {x : Work σ ε α} {f : α → Work σ ε β} {w after : World σ} {b : β}
    (h : (x >>= f).runOn w = (.ok b, after)) :
    ∃ a between, x.runOn w = (.ok a, between) ∧ (f a).runOn between = (.ok b, after) := by
  rw [runOn_bind] at h
  rcases hx : x.runOn w with ⟨_ | a, between⟩
  · simp [hx] at h
  · rw [hx] at h
    exact ⟨a, between, rfl, h⟩

theorem runOn_tryCatch (x : Work σ ε α) (handle : ε → Work σ ε α) (w : World σ) :
    (tryCatch x handle).runOn w =
      match x.runOn w with
      | (.ok a, after) => (.ok a, after)
      | (.error e, after) => (handle e).runOn after := by
  change StateT.run (match (x.runOn w).1 with
    | .ok a => StateT.pure (.ok a)
    | .error e => ExceptT.run (handle e)) (x.runOn w).2 = _
  rcases x.runOn w with ⟨_ | _, _⟩ <;> rfl

@[simp] theorem runOn_lift_ok (blame : δ → ε) (a : α) (w : World σ) :
    (lift blame (.ok a) : Work σ ε α).runOn w = (.ok a, w) := rfl

@[simp] theorem runOn_lift_error (blame : δ → ε) (e : δ) (w : World σ) :
    (lift blame (.error e) : Work σ ε α).runOn w = (.error (blame e), w) := rfl

theorem runOn_change (blame : FileFailure → ε) (f : FileTree → Except FileFailure FileTree)
    (w : World σ) :
    (change blame f).runOn w =
      match f w.tree with
      | .ok t => (.ok (), { w with tree := t })
      | .error failure => (.error (blame failure), w) := by
  rw [change, runOn_bind, runOn_tree]
  dsimp only
  cases f w.tree <;> rfl

theorem runOn_blaming (blame : δ → ε) (x : Work σ δ α) (w : World σ) :
    (blaming blame x).runOn w =
      match x.runOn w with
      | (.ok a, after) => (.ok a, after)
      | (.error e, after) => (.error (blame e), after) := by
  change ((x.runOn w).1.mapError blame, (x.runOn w).2) = _
  rcases x.runOn w with ⟨_ | _, _⟩ <;> rfl

end Work

end NetworkCa
