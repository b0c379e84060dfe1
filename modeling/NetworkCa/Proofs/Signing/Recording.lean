import NetworkCa.Proofs.FileTree.Agreement
import NetworkCa.Proofs.Signing.Backends

namespace NetworkCa

variable {σ ε α β : Type} {X : Location → Prop}

/-- Two runs with the same result, whose trees agree outside some places. What a signer remembers
    is left out. -/
def AlikeRuns (X : Location → Prop) (r r' : Except ε α × World σ) : Prop :=
  r'.1 = r.1 ∧ r.2.tree.AgreeOutside X r'.2.tree

theorem AlikeRuns.bind {x : Work σ ε α} {f : α → Work σ ε β} {w w' : World σ}
    (first : AlikeRuns X (x.runOn w) (x.runOn w'))
    (next : ∀ a after after', x.runOn w = (.ok a, after) → after.tree.AgreeOutside X after'.tree →
      AlikeRuns X ((f a).runOn after) ((f a).runOn after')) :
    AlikeRuns X ((x >>= f).runOn w) ((x >>= f).runOn w') := by
  rw [Work.runOn_bind, Work.runOn_bind]
  obtain ⟨same, agree⟩ := first
  rcases ran : x.runOn w with ⟨result, after⟩
  rcases ran' : x.runOn w' with ⟨result', after'⟩
  rw [ran, ran'] at same agree
  obtain rfl : result' = result := same
  cases result' with
  | error e => exact ⟨rfl, agree⟩
  | ok a => exact next a after after' ran agree

namespace Signer

variable {failOn : Option String} {c : SigningCall} {w w' : World (Unit × List SigningCall)}

def fails (failOn : Option String) (c : SigningCall) : Bool :=
  failOn.any fun part => Text.contains part.toList c.out.text.toList

theorem runOn_recording (failOn : Option String) (c : SigningCall)
    (w : World (Unit × List SigningCall)) :
    (recording failOn false c).runOn w =
      let memory := ((), w.memory.2 ++ [c])
      if fails failOn c then (.error (injected c), ⟨w.tree, memory⟩)
      else
        match w.tree.write c.out (Text.Utf8.encode (placeholder c)) with
        | .ok t => (.ok (), ⟨t, memory⟩)
        | .error failure => (.error (.io c.out failure), ⟨w.tree, memory⟩) := by
  have traced : (recording failOn false c).runOn w =
      (let r := (placeholders failOn false c).runOn ⟨w.tree, w.memory.1⟩;
        (r.1, ⟨r.2.tree, (r.2.memory, w.memory.2 ++ [c])⟩)) := rfl
  rw [traced, placeholders, fails]
  dsimp only
  by_cases hit : (failOn.any fun part => Text.contains part.toList c.out.text.toList) = true
  · rw [if_pos hit, if_pos hit]
    rfl
  · rw [if_neg hit, if_neg hit, if_pos (by decide), Work.runOn_change]
    dsimp only
    cases w.tree.write c.out (Text.Utf8.encode (placeholder c)) <;> rfl

theorem recording_changes (failOn : Option String) (c : SigningCall)
    (w : World (Unit × List SigningCall)) :
    w.tree.FilesChanged (fun l => w.tree.goal? c.out = some l)
      ((recording failOn false c).runOn w).2.tree := by
  rw [runOn_recording]
  dsimp only
  split
  · exact .refl _ _
  rcases written : w.tree.write c.out (Text.Utf8.encode (placeholder c)) with failure | t
  · exact .refl _ _
  · exact (FileTree.FilesChanged.of_write written).1

theorem recording_alike (failOn : Option String) (agree : w.tree.AgreeOutside X w'.tree)
    (avoids : ∀ l ∈ w.tree.route .write c.out, ¬X l) :
    AlikeRuns X ((recording failOn false c).runOn w) ((recording failOn false c).runOn w') := by
  rw [runOn_recording, runOn_recording]
  dsimp only
  split
  · exact ⟨rfl, agree⟩
  have alike := agree.write avoids (Text.Utf8.encode (placeholder c))
  generalize w.tree.write c.out (Text.Utf8.encode (placeholder c)) = r at alike ⊢
  generalize w'.tree.write c.out (Text.Utf8.encode (placeholder c)) = r' at alike ⊢
  cases alike with
  | ok agree => exact ⟨rfl, agree⟩
  | error failure => exact ⟨rfl, agree⟩

end Signer

end NetworkCa
