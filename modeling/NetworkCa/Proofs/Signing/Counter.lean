import NetworkCa.Proofs.FileTree.Changes
import NetworkCa.Proofs.Signing.Serial
import NetworkCa.Proofs.Signing.Work
import NetworkCa.Signing.InProcess

namespace NetworkCa

/-- What a serial file says about the serial to come. -/
inductive Counter where
  | unset
  | last (serial : Bytes)
  /-- There is something that no serial can be read from. -/
  | unreadable
  deriving DecidableEq

namespace Counter

def Allows : Counter → Bytes → Prop
  | .unset, serial => Serial.Fresh serial
  | .last before, serial => serial = Serial.increment before
  | .unreadable, _ => False

end Counter

namespace FileTree

variable {t : FileTree} {p : Path}

def counter (t : FileTree) (p : Path) : Counter :=
  match t.readText p with
  | .ok text =>
    match Serial.parse text with
    | .ok serial => .last serial
    | .error _ => .unreadable
  | .error .notFound => .unset
  | .error _ => .unreadable

theorem readText_of_read {s : String} {content : Bytes} (read : t.read p = .ok content)
    (text : Text.Utf8.decode? content = some s) : t.readText p = .ok s := by
  rw [readText, read]
  dsimp only [bind, Except.bind]
  rw [text]
  rfl

theorem counter_of_read {serial : Bytes}
    (read : t.read p = .ok (Text.Utf8.encode (Serial.print serial))) :
    t.counter p = .last serial := by
  rw [counter, readText_of_read read (Serial.decode?_encode_print serial)]
  dsimp only
  rw [Serial.parse_print]

end FileTree

namespace Signer.InProcess

open Work

theorem fresh_freshSerial (w : World Entropy) : ∃ serial e,
    freshSerial.runOn w = (.ok serial, ⟨w.tree, e⟩) ∧ Serial.Fresh serial :=
  ⟨_, _, rfl, Serial.fresh_ofBlock (Crypto.Sha256.length_digest _)⟩

def following (path : Path) : Except FileFailure String → Step Bytes
  | .ok text => do
    let last ← Work.lift (fun fault => .refused (.crypto (.serialFile path fault)))
      (Serial.parse text)
    return Serial.increment last
  | .error .notFound => freshSerial
  | .error failure => throw (blameFile path failure)

def note (path : Path) (serial : Bytes) : Step Bytes := do
  Work.change (blameFile path) (·.write path (Text.Utf8.encode (Serial.print serial)))
  return serial

theorem runOn_nextSerial_eq (path : Path) (w : World Entropy) :
    (nextSerial path).runOn w =
      (following path (w.tree.readText path) >>= note path).runOn w := by
  rw [nextSerial, runOn_bind_ok _ (runOn_tree w)]
  rcases w.tree.readText path with failure | text
  · cases failure <;> dsimp only [following] <;> rfl
  · simp only [following, bind_assoc, pure_bind]
    rfl

theorem runOn_following (path : Path) (w : World Entropy) :
    match w.tree.counter path with
    | .unset => (following path (w.tree.readText path)).runOn w = freshSerial.runOn w
    | .last before =>
      (following path (w.tree.readText path)).runOn w = (.ok (Serial.increment before), w)
    | .unreadable =>
      ∃ e, (following path (w.tree.readText path)).runOn w = (.error (.refused e), w) := by
  rw [FileTree.counter]
  rcases w.tree.readText path with failure | text
  · cases failure <;> first | rfl | exact ⟨_, rfl⟩
  · dsimp only
    rcases parsed : Serial.parse text with fault | last
    · refine ⟨.crypto (.serialFile path fault), ?_⟩
      rw [following, parsed]
      rfl
    · dsimp only
      rw [following, parsed]
      rfl

theorem runOn_nextSerial_of_last {path : Path} {w : World Entropy} {before : Bytes} {t : FileTree}
    (counter : w.tree.counter path = .last before)
    (written : w.tree.write path (Text.Utf8.encode (Serial.print (Serial.increment before))) =
      .ok t) :
    (nextSerial path).runOn w = (.ok (Serial.increment before), ⟨t, w.memory⟩) := by
  have chosen := runOn_following path w
  rw [counter] at chosen
  rw [runOn_nextSerial_eq, runOn_bind_ok _ chosen, note, runOn_bind, runOn_change, written]
  rfl

/-- A serial is taken that the file allows, and the file holds it, unless the file says what is no
    serial or cannot be written. -/
theorem runOn_nextSerial (path : Path) (w : World Entropy) :
    ((w.tree.counter path = .unreadable ∨ w.tree.goal? path = none) ∧ ∃ e after,
      (nextSerial path).runOn w = (.error (.refused e), after) ∧ after.tree = w.tree) ∨
    (w.tree.counter path ≠ .unreadable ∧ w.tree.goal? path ≠ none) ∧ ∃ serial after,
      (nextSerial path).runOn w = (.ok serial, after) ∧ (w.tree.counter path).Allows serial ∧
      w.tree.write path (Text.Utf8.encode (Serial.print serial)) = .ok after.tree := by
  have chosen := runOn_following path w
  rw [runOn_nextSerial_eq]
  by_cases unreadable : w.tree.counter path = .unreadable
  · rw [unreadable] at chosen
    obtain ⟨e, refused⟩ := chosen
    exact .inl ⟨.inl unreadable, e, w, runOn_bind_error _ refused, rfl⟩
  obtain ⟨serial, memory, drawn, allowed⟩ : ∃ serial e,
      (following path (w.tree.readText path)).runOn w = (.ok serial, ⟨w.tree, e⟩) ∧
        (w.tree.counter path).Allows serial := by
    cases counter : w.tree.counter path with
    | unset =>
      rw [counter] at chosen
      rw [chosen]
      exact fresh_freshSerial w
    | last before =>
      rw [counter] at chosen
      exact ⟨_, _, chosen, rfl⟩
    | unreadable => exact absurd counter unreadable
  rw [runOn_bind_ok _ drawn, note, runOn_bind, runOn_change]
  dsimp only
  rcases done : w.tree.write path (Text.Utf8.encode (Serial.print serial)) with failure | t
  · refine .inl ⟨.inr ?_, .io path failure, _, rfl, rfl⟩
    rw [Option.eq_none_iff_forall_ne_some]
    intro place goal
    obtain ⟨mode, written⟩ := FileTree.write_of_goal? goal (Text.Utf8.encode (Serial.print serial))
    cases done.symm.trans written
  · obtain ⟨_, place, _, goal, _⟩ := FileTree.FilesChanged.of_write done
    exact .inr ⟨⟨unreadable, by simp [goal]⟩, serial, _, rfl, allowed, done⟩

example :
    let t := (FileTree.empty []).put ["ca.srl"] (.file .plain (Text.Utf8.encode "00ff\n"))
    let ran := (nextSerial ⟨"ca.srl"⟩).runOn ⟨t, ⟨[], 0⟩⟩
    ran.1.toOption = some [0x01, 0x00] ∧
      (ran.2.tree.readText ⟨"ca.srl"⟩).toOption = some "0100\n" := by decide +kernel

end Signer.InProcess

end NetworkCa
