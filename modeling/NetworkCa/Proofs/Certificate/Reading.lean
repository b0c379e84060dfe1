import NetworkCa.Certificate.Issuing
import NetworkCa.Proofs.Der.Times

namespace NetworkCa

open Der Der.Reader

namespace Algorithm

def Plain (a : Algorithm) : Prop := ∀ e ∈ a.parameters, e.tag.number < 31

theorem reads_bytes {a : Algorithm} (plain : a.Plain) (fits : Sized a.bytes) (rest : Bytes) :
    Reads reader (a.bytes ++ rest) a rest := by
  obtain ⟨oid, parameters⟩ := a
  have parts := fits.content
  cases parameters with
  | none =>
    apply reads_inside (by decide) parts
    apply (reads_objectIdentifier parts.left.content []).bind
    exact (reads_atEnd []).bind (.pure _ _)
  | some e =>
    apply reads_inside (by decide) parts
    apply (reads_objectIdentifier parts.left.content _).bind
    apply (reads_atEnd_write e.tag e.content []).bind
    exact (reads_element (plain e rfl) parts.right.left.content []).bind (.pure _ _)

end Algorithm

theorem KeyKind.plain_keyAlgorithm (kind : KeyKind) : kind.keyAlgorithm.Plain := by
  cases kind <;> simp [keyAlgorithm, Algorithm.Plain, null, curve] <;> decide

theorem KeyKind.plain_signatureAlgorithm (kind : KeyKind) : kind.signatureAlgorithm.Plain := by
  cases kind <;> simp [signatureAlgorithm, Algorithm.Plain, null] <;> decide

theorem PublicKey.reads_bytes {k : PublicKey} (plain : k.algorithm.Plain) (fits : Sized k.bytes)
    (rest : Bytes) : Reads reader (k.bytes ++ rest) k rest := by
  have parts := fits.content
  apply reads_inside (by decide) parts
  apply (Algorithm.reads_bytes plain parts.left _).bind
  exact (reads_bitString parts.right.left.content []).bind (.pure _ _)

namespace Extension

theorem reads_critical {e : Extension} (fits : Sized (Der.octetString e.value)) (rest : Bytes) :
    Reads criticalReader
      ((if e.critical then [Der.boolean true] else []).flatten ++
        (Der.octetString e.value ++ rest)) e.critical (Der.octetString e.value ++ rest) := by
  cases e.critical with
  | true =>
    have read := reads_content (t := .boolean) (c := [255]) (by decide) (by decide)
      (Der.octetString e.value ++ rest)
    exact (reads_maybe read).bind (.pure _ _)
  | false =>
    -- The value comes at once, which is no truth value, and nothing is taken from it.
    have other : content .boolean (Der.octetString e.value ++ rest) = none :=
      content_none (by decide) fits.content (by decide) rest
    exact (reads_maybe_none other).bind (.pure _ _)

theorem bytes_eq (e : Extension) :
    e.bytes = Der.sequence [Der.objectIdentifier e.oid,
      (if e.critical then [Der.boolean true] else []).flatten, Der.octetString e.value] := by
  rw [bytes, Der.sequence, Der.sequence]
  simp

theorem reads_extension {e : Extension} (fits : Sized e.bytes) (rest : Bytes) :
    Reads reader (e.bytes ++ rest) e rest := by
  rw [bytes_eq] at fits ⊢
  have parts := fits.content
  have value := parts.right.right.left
  apply reads_inside (by decide) parts
  apply (reads_objectIdentifier parts.left.content _).bind
  apply (reads_critical value []).bind
  exact (reads_content (by decide) value.content []).bind (.pure _ _)

theorem reads_list {list : List Extension} (fits : Sized (Der.sequence (list.map bytes)))
    (rest : Bytes) : Reads listReader (Der.sequence (list.map bytes) ++ rest) list rest := by
  have parts := fits.content
  apply reads_filling (by decide) parts
  apply reads_zeroOrMore rfl fun e => length_write_pos _ _
  intro e member rest
  exact reads_extension (parts.mem (List.mem_map_of_mem member)) rest

end Extension

theorem Name.exists_reads {content : Bytes} (fits : Sized (write .sequence content))
    (rest : Bytes) : ∃ name, Reads Name.reader (write .sequence content ++ rest) name rest := by
  obtain ⟨sets, left, read⟩ := exists_reads_zeroOrMore
    (Der.Reader.inside .set (Der.Reader.zeroOrMore NamePart.reader)) content
  refine ⟨⟨sets⟩, ?_⟩
  apply reads_inside (by decide) fits.content
  exact read.bind (.pure _ _)

namespace Certificate

theorem reads_version (fits : Sized (write (.explicit 0) (Der.integer 2))) (rest : Bytes) :
    Reads versionReader (write (.explicit 0) (Der.integer 2) ++ rest) () rest := by
  have head := reads_header (t := .explicit 0) (by decide) fits.content rest
  have two : positiveContent (bytesOfNat 2) = [2] := by
    rw [bytesOfNat, bytesOfNat]
    rfl
  have number := reads_content (t := .integer) (by decide) fits.content.content rest
  apply (reads_get _).bind
  rw [readFront_eq head]
  apply head.bind
  apply number.bind
  rw [two]
  exact .pure () rest

theorem reads_serial {serial : Bytes} (fits : Sized (Der.integerOfBytes serial)) (rest : Bytes) :
    Reads serialReader (Der.integerOfBytes serial ++ rest) (positiveContent serial) rest :=
  (reads_element (by decide) fits.content rest).bind (.pure _ _)

theorem reads_validity {first last : Date} (start : first.Writable) (finish : last.Writable)
    (fits : Sized (Der.sequence [midnight first, midnight last])) (rest : Bytes) :
    Reads (Der.Reader.inside .sequence do return (← Der.time, ← Der.time))
      (Der.sequence [midnight first, midnight last] ++ rest)
      (first.unixDay * Instant.daySeconds, last.unixDay * Instant.daySeconds) rest := by
  have parts := fits.content
  apply reads_inside (by decide) parts
  apply (reads_time start parts.left _).bind
  exact (reads_time finish parts.right.left []).bind (.pure _ _)

theorem reads_uniqueId {number other : Nat} (low : other < 31) (differs : other ≠ number)
    {content : Bytes} (fits : Sized (write (.explicit other) content)) (rest : Bytes) :
    Reads (uniqueIdReader number) (write (.explicit other) content ++ rest) ()
      (write (.explicit other) content ++ rest) := by
  have head := reads_header (t := .explicit other) low fits.content rest
  apply (reads_get _).bind
  have unlike : ((Tag.explicit other).tagClass = .context &&
      (Tag.explicit other).number = number) = false := by
    rw [Bool.and_eq_false_iff]
    exact .inr (decide_eq_false differs)
  simp only [readFront_eq head, unlike]
  exact .pure () _

theorem reads_extensions {list : List Extension}
    (fits : Sized (write (.explicit 3) (Der.sequence (list.map Extension.bytes)))) :
    Reads extensionsReader (write (.explicit 3) (Der.sequence (list.map Extension.bytes))) list
      [] := by
  have head := reads_header (t := .explicit 3) (by decide) fits.content []
  have read := Extension.reads_list fits.content []
  rw [List.append_nil] at head
  apply (reads_atEnd _).bind
  apply head.bind
  exact read.bind ((reads_atEnd []).bind (.pure _ _))

end Certificate

namespace CertificateBody

variable {c : CertificateBody}

def seen (c : CertificateBody) (issuer subject : Name) : Certificate :=
  { subject, issuer
    serial := positiveContent c.serial
    notBefore := c.notBefore.unixDay * Instant.daySeconds
    notAfter := c.notAfter.unixDay * Instant.daySeconds
    publicKey := c.key
    extensions := c.extensions
    signatureAlgorithm := ⟨[]⟩, signed := [], signature := [] }

structure Legible (c : CertificateBody) : Prop where
  start : c.notBefore.Writable
  finish : c.notAfter.Writable
  key : c.key.algorithm.Plain

theorem exists_reads_body (legible : c.Legible) {signature : Algorithm} (plain : signature.Plain)
    (fits : Sized (c.bytes signature)) (rest : Bytes) :
    ∃ issuer subject,
      Reads Certificate.bodyReader (c.bytes signature ++ rest) (c.seen issuer subject) rest := by
  have version := fits.content
  have serial := version.right
  have algorithm := serial.right
  have issuer := algorithm.right
  have validity := issuer.right
  have subject := validity.right
  have key := subject.right
  have extensions := key.right.left
  obtain ⟨issuerName, issuerRead⟩ := Name.exists_reads issuer.left _
  obtain ⟨subjectName, subjectRead⟩ := Name.exists_reads subject.left _
  have unlike (number : Nat) (differs : 3 ≠ number) :=
    Certificate.reads_uniqueId (by decide) differs extensions []
  have listRead := Certificate.reads_extensions extensions
  rw [← List.append_nil (write _ _)] at listRead
  refine ⟨issuerName, subjectName, ?_⟩
  apply reads_inside (by decide) version
  apply (Certificate.reads_version version.left _).bind
  apply (Certificate.reads_serial serial.left _).bind
  apply (Algorithm.reads_bytes plain algorithm.left _).bind
  apply issuerRead.bind
  apply (Certificate.reads_validity legible.start legible.finish validity.left _).bind
  apply subjectRead.bind
  apply (PublicKey.reads_bytes legible.key key.left _).bind
  apply (unlike 1 (by decide)).bind
  apply (unlike 2 (by decide)).bind
  exact listRead.bind (.pure _ _)

theorem exists_ofBytes?_sign {κ : Type} {keys : KeyScheme κ} {pair : κ} {once : Nat} {der : Bytes}
    (legible : c.Legible) (done : c.sign keys pair once = .ok der) (fits : Sized der) :
    ∃ issuer subject signature, Certificate.ofBytes? der = some { c.seen issuer subject with
      signatureAlgorithm := (keys.kind pair).signatureAlgorithm.oid
      signed := c.bytes (keys.kind pair).signatureAlgorithm, signature } := by
  unfold sign KeyScheme.signed at done
  split at done <;> cases done
  next signature _ =>
  have plain := (keys.kind pair).plain_signatureAlgorithm
  have parts := fits.content
  obtain ⟨issuer, subject, body⟩ := exists_reads_body legible plain parts.left _
  refine ⟨issuer, subject, signature, readFront_eq (?_ : Reads _ _ _ [])⟩
  rw [← List.append_nil (Der.sequence _)]
  apply reads_inside (by decide) parts
  apply (reads_withBytes body).bind
  apply (Algorithm.reads_bytes plain parts.right.left _).bind
  exact (reads_bitString parts.right.right.left.content []).bind (.pure _ _)

end CertificateBody

end NetworkCa
