import NetworkCa.Json.Value

namespace NetworkCa.Json.Reader

section

variable {α β : Type} {a : α} {r : Reader α} {c : Char} {input mid rest b b' : List Char}

/-- Wherever it stands, `r` reads `a` from `input` and leaves `rest`. -/
structure Reads (r : Reader α) (input : List Char) (a : α) (rest : List Char) : Prop where
  shorter : rest.length ≤ input.length
  run : ∀ p n, input.length ≤ n → ∃ p', r ⟨p, input, n⟩ = (.ok a, ⟨p', rest, n⟩)

theorem Reads.pure (a : α) (input : List Char) : Reads (pure a) input a input :=
  ⟨Nat.le_refl _, fun p _ _ => ⟨p, rfl⟩⟩

theorem bind_of_ok {f : α → Reader β} {k k' : Cursor} (h : r k = (.ok a, k')) :
    (r >>= f) k = f a k' := by
  change StateT.run (ExceptT.bindCont f (r k).1) (r k).2 = _
  rw [h]
  rfl

theorem Reads.bind {f : α → Reader β} {x : β} (first : Reads r input a mid)
    (next : Reads (f a) mid x rest) : Reads (r >>= f) input x rest := by
  refine ⟨Nat.le_trans next.shorter first.shorter, fun p n fits => ?_⟩
  obtain ⟨p', ran⟩ := first.run p n fits
  have fits' : mid.length ≤ n := Nat.le_trans first.shorter fits
  obtain ⟨p'', ran'⟩ := next.run p' n fits'
  exact ⟨p'', (bind_of_ok ran).trans ran'⟩

theorem Reads.budget {f : Nat → Reader β} {x : β}
    (next : ∀ fuel, 2 * input.length + 2 ≤ fuel → Reads (f fuel) input x rest) :
    Reads (budget >>= f) input x rest := by
  refine ⟨(next _ (Nat.le_refl _)).shorter, fun p n fits => ?_⟩
  have enough : 2 * input.length + 2 ≤ 2 * n + 2 := by omega
  obtain ⟨p', ran⟩ := (next (2 * n + 2) enough).run p n fits
  have spent : Reader.budget ⟨p, input, n⟩ = (.ok (2 * n + 2), ⟨p, input, n⟩) := rfl
  exact ⟨p', (bind_of_ok spent).trans ran⟩

theorem length_le_budget {fuel : Nat} (enough : 2 * (input ++ rest).length + 2 ≤ fuel) :
    input.length ≤ fuel := by
  rw [List.length_append] at enough
  omega

theorem Reads.located (h : Reads r input a rest) : Reads (located r) input a rest := by
  refine ⟨h.shorter, fun p n fits => ?_⟩
  obtain ⟨p', ran⟩ := h.run p n fits
  refine ⟨p', ?_⟩
  unfold Reader.located
  rw [ran]

theorem Reads.enclosed {finish : Reader Unit} (body : Reads r input a mid)
    (ends : Reads finish mid () rest) : Reads (enclosed r finish) input a rest := by
  refine ⟨Nat.le_trans ends.shorter body.shorter, fun p n fits => ?_⟩
  obtain ⟨p', ran⟩ := body.run p n fits
  obtain ⟨p'', ran'⟩ := ends.run p' n (Nat.le_trans body.shorter fits)
  refine ⟨p'', ?_⟩
  unfold Reader.enclosed
  rw [ran]
  dsimp only
  rw [ran']

theorem reads_peek (c : Char) (rest : List Char) : Reads peek (c :: rest) (some c) (c :: rest) :=
  ⟨Nat.le_refl _, fun p _ _ => ⟨p, rfl⟩⟩

theorem reads_next (c : Char) (rest : List Char) : Reads next (c :: rest) (some c) rest :=
  ⟨by simp, fun _ _ _ => ⟨_, rfl⟩⟩

theorem reads_drop (c : Char) (rest : List Char) : Reads drop (c :: rest) () rest :=
  (reads_next c rest).bind (.pure () rest)

def Blank (s : List Char) : Prop := ∀ c ∈ s, isSpace c = true

theorem blank_nil : Blank [] := List.forall_mem_nil _

theorem skipSpaces_blank (blank : Blank b) (p : Position) (rest : List Char) :
    ∃ p', skipSpaces p (b ++ rest) = skipSpaces p' rest := by
  induction b generalizing p with
  | nil => exact ⟨p, rfl⟩
  | cons c b ih =>
    rw [List.cons_append, skipSpaces, if_pos (blank c List.mem_cons_self)]
    exact ih (fun d hd => blank d (List.mem_cons_of_mem _ hd)) _

theorem reads_peekValue (blank : Blank b) (solid : isSpace c = false) (rest : List Char) :
    Reads peekValue (b ++ c :: rest) (some c) (c :: rest) := by
  refine ⟨by simp, fun p n _ => ?_⟩
  obtain ⟨p', skipped⟩ := skipSpaces_blank blank p (c :: rest)
  have stays : skipSpaces p' (c :: rest) = (p', c :: rest) := by
    rw [skipSpaces, solid]
    rfl
  refine ⟨p', ?_⟩
  change (ExceptT.run peek).run
    ⟨(skipSpaces p (b ++ c :: rest)).1, (skipSpaces p (b ++ c :: rest)).2, n⟩ = _
  rw [skipped, stays]
  rfl

theorem reads_colon (blank : Blank b) (rest : List Char) :
    Reads colon (b ++ ':' :: rest) () rest :=
  (reads_peekValue blank rfl _).bind (reads_drop ':' rest)

theorem reads_objectEnd (blank : Blank b) (rest : List Char) :
    Reads objectEnd (b ++ '\x7d' :: rest) () rest :=
  (reads_peekValue blank rfl _).bind (reads_drop '\x7d' rest)

theorem reads_listEnd (blank : Blank b) (rest : List Char) :
    Reads listEnd (b ++ ']' :: rest) () rest :=
  (reads_peekValue blank rfl _).bind (reads_drop ']' rest)

theorem reads_valueStart (blank : Blank b) (solid : isSpace c = false) (rest : List Char) :
    Reads valueStart (b ++ c :: rest) c (c :: rest) :=
  (reads_peekValue blank solid rest).bind (.pure c _)

theorem reads_moreKeys_first (blank : Blank b) (rest : List Char) :
    Reads (moreKeys true) (b ++ '"' :: rest) true rest :=
  (reads_peekValue blank rfl _).bind ((reads_drop '"' rest).bind (.pure true rest))

theorem reads_moreKeys_comma (blank : Blank b) (blank' : Blank b') (rest : List Char) :
    Reads (moreKeys false) (b ++ ',' :: (b' ++ '"' :: rest)) true rest :=
  (reads_peekValue blank rfl _).bind ((reads_drop ',' _).bind
    ((reads_peekValue blank' rfl _).bind ((reads_drop '"' rest).bind (.pure true rest))))

theorem reads_moreKeys_end (blank : Blank b) (first : Bool) (rest : List Char) :
    Reads (moreKeys first) (b ++ '\x7d' :: rest) false ('\x7d' :: rest) :=
  (reads_peekValue blank rfl _).bind (.pure false _)

theorem reads_moreElements_end (blank : Blank b) (first : Bool) (rest : List Char) :
    Reads (moreElements first) (b ++ ']' :: rest) false (']' :: rest) :=
  (reads_peekValue blank rfl _).bind (.pure false _)

theorem reads_moreElements_first (blank : Blank b) (solid : isSpace c = false) (inner : c ≠ ']')
    (rest : List Char) : Reads (moreElements true) (b ++ c :: rest) true (c :: rest) := by
  refine (reads_peekValue blank solid rest).bind ?_
  split
  · next none => cases none
  · next closed => exact absurd (Option.some.inj closed) inner
  · exact .pure true _

theorem reads_moreElements_comma (blank : Blank b) (blank' : Blank b') (solid : isSpace c = false)
    (inner : c ≠ ']') (rest : List Char) :
    Reads (moreElements false) (b ++ ',' :: (b' ++ c :: rest)) true (c :: rest) := by
  refine (reads_peekValue blank rfl _).bind ((reads_drop ',' _).bind ?_)
  refine (reads_peekValue blank' solid rest).bind ?_
  split
  · next closed => exact absurd (Option.some.inj closed) inner
  · exact .pure true _
  · next none => cases none

end

section

variable {α β : Type} {a : α} {r : Reader α} {f : α → Reader β} {input mid rest : List Char}

def Fails (r : Reader α) (input : List Char) : Prop :=
  ∀ p n, input.length ≤ n → ∃ failure stop, r ⟨p, input, n⟩ = (.error failure, stop)

def Never (r : Reader α) : Prop := ∀ k, ∃ failure stop, r k = (.error failure, stop)

/-- `r` reads `o` and leaves `rest`, or fails where there is none. -/
def Answers (r : Reader α) (input rest : List Char) : Option α → Prop
  | some a => Reads r input a rest
  | none => Fails r input

theorem bind_of_error {k k' : Cursor} {failure : Failure} (h : r k = (.error failure, k')) :
    (r >>= f) k = (.error failure, k') := by
  change StateT.run (ExceptT.bindCont f (r k).1) (r k).2 = _
  rw [h]
  rfl

theorem Never.fails (h : Never r) (input : List Char) : Fails r input := fun _ _ _ => h _

theorem never_throw (failure : Failure) : Never (throw failure : Reader α) :=
  fun k => ⟨failure, k, rfl⟩

theorem never_failSomewhere (cause : Cause) : Never (failSomewhere cause : Reader α) :=
  never_throw _

theorem never_failHere (cause : Cause) : Never (failHere cause : Reader α) :=
  fun k => ⟨⟨cause, some k.position⟩, k, rfl⟩

theorem never_failAhead (cause : Cause) : Never (failAhead cause : Reader α) :=
  fun k => ⟨⟨cause, some k.ahead⟩, k, rfl⟩

theorem never_located (h : Never r) : Never (located r) := by
  intro k
  obtain ⟨⟨cause, position⟩, stop, ran⟩ := h k
  unfold located
  rw [ran]
  cases position <;> exact ⟨_, _, rfl⟩

theorem never_bind (next : ∀ a, Never (f a)) : Never (r >>= f) := by
  intro k
  rcases ran : r k with ⟨failure | a, k'⟩
  · exact ⟨failure, k', bind_of_error ran⟩
  · obtain ⟨failure, stop, failed⟩ := next a k'
    exact ⟨failure, stop, (bind_of_ok ran).trans failed⟩

theorem Fails.bind (h : Fails r input) : Fails (r >>= f) input := by
  intro p n fits
  obtain ⟨failure, stop, ran⟩ := h p n fits
  exact ⟨failure, stop, bind_of_error ran⟩

theorem Reads.fails (first : Reads r input a mid) (next : Fails (f a) mid) :
    Fails (r >>= f) input := by
  intro p n fits
  obtain ⟨p', ran⟩ := first.run p n fits
  obtain ⟨failure, stop, failed⟩ := next p' n (Nat.le_trans first.shorter fits)
  exact ⟨failure, stop, (bind_of_ok ran).trans failed⟩

theorem Fails.budget {f : Nat → Reader β}
    (next : ∀ fuel, 2 * input.length + 2 ≤ fuel → Fails (f fuel) input) :
    Fails (budget >>= f) input := by
  intro p n fits
  obtain ⟨failure, stop, failed⟩ := next (2 * n + 2) (by omega) p n fits
  have spent : Reader.budget ⟨p, input, n⟩ = (.ok (2 * n + 2), ⟨p, input, n⟩) := rfl
  exact ⟨failure, stop, (bind_of_ok spent).trans failed⟩

theorem Fails.located (h : Fails r input) : Fails (located r) input := by
  intro p n fits
  obtain ⟨⟨cause, position⟩, stop, ran⟩ := h p n fits
  unfold Reader.located
  rw [ran]
  cases position <;> exact ⟨_, _, rfl⟩

theorem Fails.enclosed {finish : Reader Unit} (h : Fails r input) :
    Fails (enclosed r finish) input := by
  intro p n fits
  obtain ⟨failure, stop, ran⟩ := h p n fits
  unfold Reader.enclosed
  rw [ran]
  exact ⟨_, _, rfl⟩

theorem Reads.enclosedFails {finish : Reader Unit} (body : Reads r input a mid)
    (ends : Fails finish mid) : Fails (Reader.enclosed r finish) input := by
  intro p n fits
  obtain ⟨p', ran⟩ := body.run p n fits
  obtain ⟨failure, stop, failed⟩ := ends p' n (Nat.le_trans body.shorter fits)
  unfold Reader.enclosed
  rw [ran]
  dsimp only
  rw [failed]
  exact ⟨_, _, rfl⟩

namespace Answers

variable {o : Option α} {g : α → Option β}

theorem bind (first : Answers r input mid o)
    (next : ∀ a, o = some a → Answers (f a) mid rest (g a)) :
    Answers (r >>= f) input rest (o.bind g) := by
  cases o with
  | none => exact Fails.bind first
  | some a =>
    have further := next a rfl
    rw [Option.bind_some]
    rcases read : g a with _ | x <;> rw [read] at further
    · exact Reads.fails first further
    · exact Reads.bind first further

theorem after (first : Reads r input a mid) {o : Option β} (next : Answers (f a) mid rest o) :
    Answers (r >>= f) input rest o := by
  cases o with
  | none => exact first.fails next
  | some x => exact first.bind next

theorem fails (first : Answers r input mid o) (next : ∀ a, Fails (f a) mid) :
    Fails (r >>= f) input := by
  cases o with
  | none => exact Fails.bind first
  | some a => exact Reads.fails first (next a)

theorem map (first : Answers r input rest o) (g : α → β) :
    Answers (r >>= fun a => pure (g a)) input rest (o.map g) := by
  cases o with
  | none => exact Fails.bind first
  | some a => exact Reads.bind first (.pure (g a) rest)

theorem budget {f : Nat → Reader β} {o : Option β}
    (next : ∀ fuel, 2 * input.length + 2 ≤ fuel → Answers (f fuel) input rest o) :
    Answers (Reader.budget >>= f) input rest o := by
  cases o with
  | none => exact Fails.budget next
  | some x => exact Reads.budget next

theorem located (h : Answers r input rest o) : Answers (Reader.located r) input rest o := by
  cases o with
  | none => exact Fails.located h
  | some a => exact Reads.located h

theorem enclosed {finish : Reader Unit} (h : Answers r input mid o)
    (ends : Reads finish mid () rest) : Answers (Reader.enclosed r finish) input rest o := by
  cases o with
  | none => exact Fails.enclosed h
  | some a => exact Reads.enclosed h ends

theorem enclosedFails {finish : Reader Unit} (h : Answers r input mid o)
    (ends : Fails finish mid) : Fails (Reader.enclosed r finish) input := by
  cases o with
  | none => exact Fails.enclosed h
  | some a => exact Reads.enclosedFails h ends

end Answers

end

section

variable {α : Type} {a : α} {r : Reader α} {b : List Char}

theorem reads_end (blank : Blank b) : Reads peekValue b none [] := by
  refine ⟨Nat.zero_le _, fun p n _ => ?_⟩
  obtain ⟨p', skipped⟩ := skipSpaces_blank blank p []
  rw [List.append_nil] at skipped
  refine ⟨p', ?_⟩
  change (ExceptT.run peek).run ⟨(skipSpaces p b).1, (skipSpaces p b).2, n⟩ = _
  rw [skipped]
  rfl

theorem run_of_reads_before {s : String} (h : Reads r s.toList a b) (blank : Blank b) :
    run r s = .ok a := by
  obtain ⟨p, ran⟩ := h.run ⟨1, 0⟩ _ (Nat.le_refl _)
  obtain ⟨p', ran'⟩ := (reads_end blank).run p s.toList.length h.shorter
  rw [run, Cursor.ofString, bind_of_ok ran, bind_of_ok ran']
  rfl

theorem run_of_reads {s : String} (h : Reads r s.toList a []) : run r s = .ok a :=
  run_of_reads_before h blank_nil

theorem run_of_fails {s : String} (h : Fails r s.toList) : ∃ failure, run r s = .error failure := by
  obtain ⟨failure, stop, ran⟩ := h ⟨1, 0⟩ _ (Nat.le_refl _)
  refine ⟨failure, ?_⟩
  rw [run, Cursor.ofString, bind_of_error ran]

end

end NetworkCa.Json.Reader
