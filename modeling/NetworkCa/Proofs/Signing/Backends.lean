import NetworkCa.Proofs.Signing.Manners
import NetworkCa.Signing.InProcess
import NetworkCa.Signing.Recording

namespace NetworkCa

namespace Signer

variable {κ : Type} (keys : KeyScheme κ) (now : Instant) {serial : Path}

namespace InProcess

open Work

theorem writes_scalar : Writes serial scalar := .of_tree_eq fun _ => rfl

theorem writes_freshSerial : Writes serial freshSerial := .of_tree_eq fun _ => rfl

theorem writes_window (days : Nat) : Writes serial (window now days) := by
  rw [window]
  cases validity now days with
  | none => exact .throw _
  | some => exact .pure _

theorem writes_readText (p : Path) : Writes serial (readText p) := .look _ _

theorem writes_readKey (p : Path) : Writes serial (readKey keys p) :=
  (writes_readText p).bind fun _ => .lift _ _

theorem writes_nextSerial : Writes serial (nextSerial serial) := by
  have count (next : Bytes) : Writes serial (do
      Work.change (blameFile serial) (·.write serial (Text.Utf8.encode (Serial.print next)))
      return next : Step Bytes) := (Writes.write _ _).bind fun _ => .pure _
  apply Writes.tree.bind
  intro t
  dsimp only
  split
  · exact (Writes.lift _ _).bind fun _ => (Writes.pure _).bind count
  · exact writes_freshSerial.bind count
  · exact .throw _

theorem outputs_writeNew (out : Path) (mode : FileMode) (content : Bytes) :
    Outputs out serial (writeNew out mode content) := .create _ _ _

theorem outputs_writeCertificate (pair : κ) (body : Date × Date → CertificateBody) (days : Nat)
    (out : Path) : Outputs out serial (writeCertificate keys pair body now days out) := by
  apply Outputs.after (writes_window now days)
  intro window
  apply Outputs.after writes_scalar
  intro once
  apply Outputs.after (Writes.lift _ _)
  intro der
  exact outputs_writeNew _ _ _

theorem outputs_generateKey (method : KeyMethod) (passphrase : Option String) (out : Path) :
    Outputs out serial (generateKey keys method passphrase out) := by
  unfold generateKey
  dsimp only
  split
  · exact .throw _
  split
  · exact .throw _
  apply Outputs.after writes_scalar
  intro secret
  split
  · exact outputs_writeNew _ _ _
  · exact .throw _

theorem outputs_selfSign (key : Path) (passphrase : Option String) (subject : Subject)
    (days : Nat) (out : Path) :
    Outputs out serial (selfSign keys now key passphrase subject days out) := by
  unfold selfSign
  split
  · exact .throw _
  apply Outputs.after (writes_readKey keys key)
  intro pair
  apply Outputs.after writes_freshSerial
  intro number
  exact outputs_writeCertificate keys now pair _ days out

theorem outputs_createRequest (key : Path) (subject : Subject) (out : Path) :
    Outputs out serial (createRequest keys key subject out) := by
  apply Outputs.after (writes_readKey keys key)
  intro pair
  apply Outputs.after writes_scalar
  intro once
  apply Outputs.after (Writes.lift _ _)
  intro der
  exact outputs_writeNew _ _ _

theorem outputs_signRequest (request : Path) (authority : AuthorityFiles)
    (passphrase : Option String) (days : Nat) (extensions : Option Path) (out : Path) :
    Outputs out authority.serial
      (signRequest keys now request authority passphrase days extensions out) := by
  unfold signRequest
  split
  · exact .throw _
  apply Outputs.after Writes.tree
  intro t
  apply Outputs.after (Writes.lift _ _)
  intro found
  apply Outputs.after (writes_readKey keys authority.key)
  intro pair
  apply Outputs.after (writes_readText authority.cert)
  intro cert
  apply Outputs.after (Writes.lift _ _)
  intro issuer
  apply Outputs.after (writes_readText request)
  intro text
  apply Outputs.after (Writes.lift _ _)
  intro wish
  apply Outputs.after writes_nextSerial
  intro number
  exact outputs_writeCertificate keys now pair _ days out

theorem perform_outputs {c : SigningCall} (counts : c.CountsAt serial) :
    Outputs c.out serial (perform keys now c) := by
  cases c with
  | key method passphrase out => exact outputs_generateKey keys method passphrase out
  | selfSign key passphrase subject days config out =>
    exact outputs_selfSign keys now key passphrase subject days out
  | request key subject config out => exact outputs_createRequest keys key subject out
  | sign request authority passphrase days extensions out =>
    obtain rfl : authority.serial = serial := counts
    exact outputs_signRequest keys now request authority passphrase days extensions out

end InProcess

theorem inProcessWith_creates (serial : Path) : (inProcessWith keys now).Creates serial :=
  fun _ counts => (InProcess.perform_outputs keys now counts).adds.blaming _

theorem inProcessWith_allOrNothing (serial : Path) :
    (inProcessWith keys now).AllOrNothing serial :=
  fun _ counts => (InProcess.perform_outputs keys now counts).allOrNothing.blaming _

theorem placeholders_writesOnly (failOn : Option String) (silent : Bool) (serial : Path) :
    (placeholders failOn silent).WritesOnly serial := by
  intro c counts
  unfold placeholders
  dsimp only
  split
  · exact .of_tree_eq fun _ => rfl
  split
  · apply Work.ChangesFiles.change
    intro t t' done
    exact (FileTree.FilesChanged.of_write done).1.mono fun l => .inl
  · exact .of_tree_eq fun _ => rfl

end Signer

end NetworkCa
