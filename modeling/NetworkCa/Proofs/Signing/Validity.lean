import NetworkCa.Proofs.Certificate.Reading
import NetworkCa.Proofs.Pem.Concatenation
import NetworkCa.Proofs.Signing.Checks

namespace NetworkCa

open Signer.InProcess

/-- A certificate that is valid from the last midnight on, for a number of whole days. -/
structure CertificateSummary.Window (now : Instant) (days : Nat) (s : CertificateSummary) :
    Prop where
  midnight : s.notBefore % Instant.daySeconds = 0
  today : s.notBefore ≤ now ∧ now < s.notBefore + Instant.daySeconds
  term : s.notAfter = s.notBefore + days * Instant.daySeconds

namespace Instant

theorem day_add_days (now : Instant) (days : Nat) :
    (now + days * daySeconds).day = now.day + days := by
  simp only [day, daySeconds]
  omega

theorem year_date_le {t t' : Instant} (h : t ≤ t') : t.date.year ≤ t'.date.year := by
  have days : t.day ≤ t'.day := Int.ediv_le_ediv (by decide) h
  exact Date.le_year_iff.mpr (Int.le_trans (Date.le_year_iff.mp (Int.le_refl _)) days)

theorem le_year_date {t : Instant} (h : 0 ≤ t) : 1970 ≤ t.date.year := by
  have days : 0 ≤ t.day := Int.ediv_nonneg h (by decide)
  exact Date.le_year_iff.mpr days

theorem unixDay_date (t : Instant) : t.date.unixDay = t.day := Date.unixDay_ofUnixDay _

end Instant

section Dates

variable {now : Instant} {days : Nat} {first last : Date}

theorem validity_eq_some : validity now days = some (first, last) ↔
    first = now.date ∧ last = (now + days * Instant.daySeconds).date ∧
      first.isInCalendar ∧ last.isInCalendar := by
  rw [validity, Instant.unixDay_date, ← Instant.day_add_days]
  split
  · next both =>
    rw [Bool.and_eq_true] at both
    simp only [Option.some.injEq, Prod.mk.injEq]
    constructor
    · rintro ⟨rfl, rfl⟩
      exact ⟨rfl, rfl, both⟩
    · rintro ⟨rfl, rfl, _⟩
      exact ⟨rfl, rfl⟩
  · next outside =>
    rw [Bool.and_eq_true] at outside
    refine ⟨nofun, ?_⟩
    rintro ⟨rfl, rfl, both⟩
    exact absurd both outside

/-- From 1970 on, there are no dates only where the last one is after the year 9999. -/
theorem validity_eq_none_iff (modern : 0 ≤ now) : validity now days = none ↔
    9999 < (Instant.date (now + days * Instant.daySeconds)).year := by
  have onward : now ≤ now + days * Instant.daySeconds := by
    simp only [Instant, Instant.daySeconds]
    omega
  have start := Instant.le_year_date modern
  have later := Instant.year_date_le onward
  rw [Option.eq_none_iff_forall_ne_some]
  constructor
  · intro none
    by_contra within
    apply none (now.date, (now + days * Instant.daySeconds).date)
    rw [validity_eq_some]
    simp only [Date.isInCalendar, decide_eq_true_eq, true_and]
    omega
  · rintro past ⟨first, last⟩ dated
    obtain ⟨_, rfl, _, inside⟩ := validity_eq_some.1 dated
    simp only [Date.isInCalendar, decide_eq_true_eq] at inside
    omega

end Dates

theorem SigningCall.undated_iff {c : SigningCall} {now : Instant} (modern : 0 ≤ now) :
    c.Undated now ↔ ∃ days, c.days? = some days ∧
      9999 < (Instant.date (now + days * Instant.daySeconds)).year := by
  simp only [Undated, validity_eq_none_iff modern]

namespace CertificateBody

variable {c : CertificateBody} {now : Instant} {days : Nat}

structure Spans (c : CertificateBody) (now : Instant) (days : Nat) : Prop where
  dated : validity now days = some (c.notBefore, c.notAfter)
  keyed : ∃ kind : KeyKind, c.key.algorithm = kind.keyAlgorithm

theorem Spans.legible (spans : c.Spans now days) (modern : 0 ≤ now) : c.Legible := by
  obtain ⟨start, finish, _, inside⟩ := validity_eq_some.1 spans.dated
  obtain ⟨kind, known⟩ := spans.keyed
  have onward : now ≤ now + days * Instant.daySeconds := by
    simp only [Instant, Instant.daySeconds]
    omega
  have first := Instant.le_year_date modern
  have later := Instant.year_date_le onward
  have fourDigits : c.notAfter.year.natAbs ≤ 9999 := by
    simpa only [Date.isInCalendar, decide_eq_true_eq] using inside
  rw [finish] at fourDigits
  refine ⟨?_, ?_, known ▸ kind.plain_keyAlgorithm⟩
  · rw [start]
    exact ⟨Date.isValid_ofUnixDay _, by omega⟩
  · rw [finish]
    exact ⟨Date.isValid_ofUnixDay _, by omega⟩

theorem Spans.window (spans : c.Spans now days) {s : CertificateSummary}
    (start : s.notBefore = c.notBefore.unixDay * Instant.daySeconds)
    (finish : s.notAfter = c.notAfter.unixDay * Instant.daySeconds) : s.Window now days := by
  obtain ⟨first, last, _⟩ := validity_eq_some.1 spans.dated
  rw [first, Instant.unixDay_date] at start
  rw [last, Instant.unixDay_date, Instant.day_add_days] at finish
  simp only [Instant, Instant.day, Instant.daySeconds] at start finish
  constructor <;> simp only [Instant, Instant.daySeconds] <;> omega

end CertificateBody

namespace Certificate

theorem readChain_of_print {t : FileTree} {p : Path} {der : Bytes}
    (read : t.read p = .ok (print der)) : readChain t p = .ok [der] := by
  let block : Pem.Block := ⟨label, der⟩
  have presentable : Pem.Presentable block.label := FileTree.presentable_of_mem (by simp [block])
  have alone : chainOfText (block.print ++ []) = .ok [der] :=
    chainOfText_append (Pem.readRaw_print presentable) (Pem.block_print presentable)
  rw [List.append_nil] at alone
  have printed : t.read p = .ok block.print := read
  rw [readChain, printed]
  dsimp only
  rw [alone]
  rfl

end Certificate

namespace SigningRequest

variable {κ : Type} {keys : KeyScheme κ} {wish : Wish}

theorem key_of_wish {r : SigningRequest} (wished : r.wish keys = .ok wish) : ∃ kind,
    KeyKind.ofSignature? r.signatureAlgorithm.oid = some kind ∧
      wish.key = ⟨kind.keyAlgorithm, r.publicKey.key⟩ := by
  unfold SigningRequest.wish at wished
  rcases confirmed : r.isConfirmedBy keys <;> rw [confirmed] at wished
  · cases wished
  rcases known : KeyKind.ofSignature? r.signatureAlgorithm.oid with _ | kind <;>
    rw [known] at wished
  · cases wished
  rcases named : DistinguishedName.ofName r.subject with _ | subject <;> rw [named] at wished
  · cases wished
  rcases granted : r.extensions.mapM grantedNames with _ | names <;> rw [granted] at wished
  · cases wished
  · cases wished
    exact ⟨kind, rfl, rfl⟩

theorem exists_kind_of_wishOfText {text : String} (wished : wishOfText text keys = .ok wish) :
    ∃ kind : KeyKind, wish.key.algorithm = kind.keyAlgorithm := by
  unfold wishOfText at wished
  split at wished
  · cases wished
  · obtain ⟨kind, _, key⟩ := key_of_wish wished
    exact ⟨kind, congrArg PublicKey.algorithm key⟩

end SigningRequest

namespace Signer

open Work

variable {κ : Type} {keys : KeyScheme κ} {now : Instant} {days : Nat} {c : SigningCall}
  {w : World Entropy}

theorem holdsCertificate_of_call (asked : c.days? = some days)
    (done : ((perform keys now c).runOn w).1 = .ok ()) :
    ∃ body : CertificateBody, body.Spans now days ∧
      ((perform keys now c).runOn w).2.tree.HoldsCertificate keys c.out body := by
  cases c with
  | key => cases asked
  | request => cases asked
  | selfSign key passphrase subject _ config out =>
    cases asked
    rcases runOn_selfSign keys now key passphrase subject days out w with
      ⟨_, e, refused⟩ | ⟨_, pair, _, ran⟩
    · rw [perform, refused] at done
      cases done
    obtain ⟨window, dated, held⟩ := holdsCertificate_of_ok ran done
    exact ⟨_, ⟨dated, keys.kind pair, rfl⟩, held⟩
  | sign request authority passphrase _ extensions out =>
    cases asked
    rcases signRequest_counts keys now request authority passphrase days extensions out w with
      ⟨_, e, _, refused, _⟩ | ⟨_, m, found, serial, counted, _, _, ran⟩
    · rw [perform, refused] at done
      cases done
    obtain ⟨window, dated, held⟩ := holdsCertificate_of_ok ran done
    obtain ⟨text, _, wished⟩ := found.wish
    exact ⟨_, ⟨dated, SigningRequest.exists_kind_of_wishOfText wished⟩, held⟩

/-- Whatever certificate is made, it is valid from the midnight before for the days asked for. Its
    lengths are written with eight bytes at most, which no file outgrows. -/
theorem inProcess_window (asked : c.days? = some days) (modern : 0 ≤ now)
    (done : ((perform keys now c).runOn w).1 = .ok ()) :
    ∃ der, Certificate.readChain ((perform keys now c).runOn w).2.tree c.out = .ok [der] ∧
      (Der.Sized der →
        ∃ summary, CertificateSummary.ofBytes? der = some summary ∧ summary.Window now days) := by
  obtain ⟨body, spans, pair, once, der, signed, read⟩ := holdsCertificate_of_call asked done
  refine ⟨der, Certificate.readChain_of_print read, fun fits => ?_⟩
  obtain ⟨issuer, subject, signature, parsed⟩ :=
    CertificateBody.exists_ofBytes?_sign (spans.legible modern) signed fits
  rw [CertificateSummary.ofBytes?, parsed]
  exact ⟨_, rfl, spans.window rfl rfl⟩

namespace Sample

def selfSigned : SigningCall := .selfSign files.key none subject 36525 none ⟨"client.crt"⟩

def signed : SigningCall := .sign request files none 36525 none ⟨"client.crt"⟩

theorem made (content : Bytes) : tree.create ⟨"client.crt"⟩ .plain content =
    .ok (tree.put ["client.crt"] (.file .plain content)) := rfl

theorem runOn_selfSigned : ∃ der memory, der.length < 65536 ∧
    (perform .p256 newYearsEve selfSigned).runOn outset =
      (.ok (), ⟨tree.put ["client.crt"] (.file .plain (Certificate.print der)), memory⟩) := by
  let own : CertificateBody := .authority subject (KeyScheme.p256.publicKey pair)
    (Serial.ofBlock outset.memory.block.1) century
  have short : ((own.sign .p256 pair outset.memory.block.2.scalar.1).toOption.any
      (·.length < 65536)) = true := by
    decide +kernel
  obtain ⟨der, signed, short⟩ := (Option.any_eq_true _ _).1 short
  rcases runOn_selfSign .p256 newYearsEve files.key none subject 36525 ⟨"client.crt"⟩ outset with
    ⟨unready, _⟩ | ⟨_, pair', held, ran⟩
  · exact absurd ⟨rfl, pair, holdsKey⟩ unready
  obtain rfl := held.unique holdsKey
  refine ⟨der, outset.memory.block.2.scalar.2, of_decide_eq_true short, ?_⟩
  rw [selfSigned, perform, ran]
  exact runOn_writeCertificate_ok validity_newYearsEve (eq_ok_of_toOption signed) (made _)

/-- From the last day of 2049 to the first day of 2150, which have their years written in different
    ways. -/
def SpansCentury (c : SigningCall) : Prop :=
  c.days? = some 36525 ∧ ((perform .p256 newYearsEve c).runOn outset).1 = .ok () ∧
    ∃ der summary, Der.Sized der ∧
      Certificate.readChain ((perform .p256 newYearsEve c).runOn outset).2.tree c.out =
        .ok [der] ∧
      CertificateSummary.ofBytes? der = some summary ∧
      summary.notBefore = 2524521600 ∧ summary.notAfter = 5680281600

end Sample

open NetworkCa.Signer.Sample in
theorem inProcess_window_of_century :
    0 ≤ newYearsEve ∧ SpansCentury selfSigned ∧ SpansCentury signed := by
  have modern : 0 ≤ newYearsEve := by decide
  have spans {c : SigningCall} {der : Bytes} {after : World Entropy}
      (asked : c.days? = some 36525) (short : der.length < 65536)
      (ran : (perform .p256 newYearsEve c).runOn outset = (.ok (), after))
      (read : after.tree.read c.out = .ok (Certificate.print der)) : SpansCentury c := by
    have done := congrArg Prod.fst ran
    have fits : Der.Sized der := Nat.lt_trans short (by decide)
    obtain ⟨found, chain, described⟩ := inProcess_window asked modern done
    have alone : Certificate.readChain ((perform .p256 newYearsEve c).runOn outset).2.tree c.out =
        .ok [der] := by
      rw [ran]
      exact Certificate.readChain_of_print read
    cases chain.symm.trans alone
    obtain ⟨summary, parsed, midnight, today, term⟩ := described fits
    simp only [Instant, Instant.daySeconds, newYearsEve] at midnight today term
    refine ⟨asked, done, der, summary, fits, chain, parsed, ?_, ?_⟩ <;>
      simp only [Instant] <;> omega
  obtain ⟨der, memory, short, ran⟩ := runOn_selfSigned
  obtain ⟨der', memory', short', ran'⟩ := runOn_sign
  exact ⟨modern, spans rfl short ran (FileTree.read_of_create (made _)),
    spans rfl short' ran' (FileTree.read_of_create (created _))⟩

end Signer

end NetworkCa
