import NetworkCa.Proofs.Pem.RoundTrip
import NetworkCa.Proofs.Signing.Counter

namespace NetworkCa

variable {κ : Type} {keys : KeyScheme κ}

theorem KeyScheme.fault_of_signed {pair : κ} {once : Nat} {statement : Bytes}
    {fault : MaterialFault} (failed : keys.signed pair once statement = .error fault) :
    fault = .signature := by
  unfold signed at failed
  split at failed <;> cases failed
  rfl

namespace FileTree

variable {t : FileTree} {p : Path}

def HoldsKey (t : FileTree) (keys : KeyScheme κ) (p : Path) (pair : κ) : Prop :=
  ∃ text, t.readText p = .ok text ∧ keys.ofText text = .ok pair

def HoldsCertificate (t : FileTree) (keys : KeyScheme κ) (p : Path) (body : CertificateBody) :
    Prop :=
  ∃ pair once der, body.sign keys pair once = .ok der ∧ t.read p = .ok (Certificate.print der)

theorem HoldsKey.unique {pair pair' : κ} (h : t.HoldsKey keys p pair)
    (h' : t.HoldsKey keys p pair') : pair = pair' := by
  obtain ⟨text, read, parsed⟩ := h
  obtain ⟨text', read', parsed'⟩ := h'
  cases read.symm.trans read'
  cases parsed.symm.trans parsed'
  rfl

theorem readText_of_print {b : Pem.Block} (presentable : Pem.Presentable b.label)
    (read : t.read p = .ok b.print) :
    ∃ text, t.readText p = .ok text ∧ Pem.first (Text.Utf8.encode text) = .ok b := by
  have ascii : ∀ s ∈ b.print, s < 128 := fun s hs => Pem.ascii_print presentable hs
  have decoded : Text.Utf8.decode? b.print =
      some (String.ofList (Text.Utf8.asciiChars b.print)) := by
    rw [Text.Utf8.decode?, Text.Utf8.decode_of_ascii ascii]
    rfl
  refine ⟨_, readText_of_read read decoded, ?_⟩
  rw [Text.Utf8.encode_asciiChars ascii, Pem.first_print presentable]

theorem presentable_of_mem {label : String}
    (h : label ∈ [KeyScheme.label, Certificate.label, SigningRequest.label]) :
    Pem.Presentable label := by
  simp only [List.mem_cons, List.not_mem_nil, or_false] at h
  rcases h with rfl | rfl | rfl <;> exact Pem.presentable_of_all (by decide) (by decide)

theorem holdsKey_of_print {pair : κ} {content : Bytes}
    (read : t.read p = .ok (Pem.Block.mk KeyScheme.label content).print)
    (sound : keys.ofBytes? content = some pair) : t.HoldsKey keys p pair := by
  obtain ⟨text, read, first⟩ := readText_of_print (presentable_of_mem (by simp)) read
  refine ⟨text, read, ?_⟩
  rw [KeyScheme.ofText, first]
  dsimp only
  rw [sound]

theorem issuer_of_print {pair : κ} {content : Bytes} {issuer : Issuer}
    (read : t.read p = .ok (Certificate.print content))
    (sound : (Certificate.ofBytes? content).map (·.asIssuer keys pair) = some (.ok issuer)) :
    ∃ text, t.readText p = .ok text ∧ Certificate.issuerOfText text keys pair = .ok issuer := by
  obtain ⟨text, read, first⟩ := readText_of_print (presentable_of_mem (by simp)) read
  obtain ⟨c, parsed, asked⟩ := Option.map_eq_some_iff.1 sound
  refine ⟨text, read, ?_⟩
  rw [Certificate.issuerOfText, first]
  dsimp only
  rw [parsed]
  exact asked

theorem wish_of_print {content : Bytes} {wish : SigningRequest.Wish}
    (read : t.read p = .ok (SigningRequest.print content))
    (sound : (SigningRequest.ofBytes? content).map (·.wish keys) = some (.ok wish)) :
    ∃ text, t.readText p = .ok text ∧ SigningRequest.wishOfText text keys = .ok wish := by
  obtain ⟨text, read, first⟩ := readText_of_print (presentable_of_mem (by simp)) read
  obtain ⟨r, parsed, asked⟩ := Option.map_eq_some_iff.1 sound
  refine ⟨text, read, ?_⟩
  rw [SigningRequest.wishOfText, SigningRequest.ofText?, first]
  dsimp only
  rw [parsed]
  exact asked

end FileTree

def SigningCall.serial? : SigningCall → Option Path
  | .sign _ authority _ _ _ _ => some authority.serial
  | _ => none

def SigningCall.days? : SigningCall → Option Nat
  | .selfSign _ _ _ days _ _ => some days
  | .sign _ _ _ days _ _ => some days
  | _ => none

namespace Signer

structure Material (κ : Type) where
  given : LeafExtensions
  pair : κ
  issuer : Issuer
  wish : SigningRequest.Wish

structure Material.Found (keys : KeyScheme κ) (t : FileTree) (request : Path)
    (authority : AuthorityFiles) (extensions : Option Path) (m : Material κ) : Prop where
  given : LeafExtensions.load t extensions = .ok m.given
  pair : t.HoldsKey keys authority.key m.pair
  issuer : ∃ text, t.readText authority.cert = .ok text ∧
    Certificate.issuerOfText text keys m.pair = .ok m.issuer
  wish : ∃ text, t.readText request = .ok text ∧ SigningRequest.wishOfText text keys = .ok m.wish

theorem Material.Found.unique {t : FileTree} {request : Path} {authority : AuthorityFiles}
    {extensions : Option Path} {m m' : Material κ} (h : m.Found keys t request authority extensions)
    (h' : m'.Found keys t request authority extensions) : m = m' := by
  obtain ⟨given, pair, issuer, wish⟩ := m
  obtain ⟨given', pair', issuer', wish'⟩ := m'
  obtain ⟨loaded, held, ⟨cert, certified, issued⟩, text, asked, wished⟩ := h
  obtain ⟨loaded', held', ⟨cert', certified', issued'⟩, text', asked', wished'⟩ := h'
  dsimp only at *
  cases loaded.symm.trans loaded'
  obtain rfl := held.unique held'
  cases certified.symm.trans certified'
  cases issued.symm.trans issued'
  cases asked.symm.trans asked'
  cases wished.symm.trans wished'
  rfl

theorem Material.Found.congr {t t' : FileTree} {request : Path} {authority : AuthorityFiles}
    {m : Material κ} (found : m.Found keys t request authority none)
    (same : ∀ p ∈ [authority.key, authority.cert, request], t'.read p = t.read p) :
    m.Found keys t' request authority none := by
  have texts (p : Path) (asked : p ∈ [authority.key, authority.cert, request]) :
      t'.readText p = t.readText p := by
    rw [FileTree.readText, FileTree.readText, same p asked]
  obtain ⟨given, ⟨text, read, parsed⟩, issuer, wish⟩ := found
  rw [← texts authority.cert (by simp)] at issuer
  rw [← texts request (by simp)] at wish
  rw [← texts authority.key (by simp)] at read
  exact ⟨given, ⟨text, read, parsed⟩, issuer, wish⟩

structure Signable (keys : KeyScheme κ) (t : FileTree) (request : Path) (authority : AuthorityFiles)
    (passphrase : Option String) (extensions : Option Path) : Prop where
  unprotected : passphrase = none
  found : ∃ m : Material κ, m.Found keys t request authority extensions
  readable : t.counter authority.serial ≠ .unreadable
  writable : t.goal? authority.serial ≠ none

/-- What the in-process signer checks of a call before it writes anything. -/
def Checked (keys : KeyScheme κ) (t : FileTree) : SigningCall → Prop
  | .key method passphrase _ => method = .ecc ∧ passphrase = none
  | .selfSign key passphrase _ _ _ _ => passphrase = none ∧ ∃ pair, t.HoldsKey keys key pair
  | .request key _ _ _ => ∃ pair, t.HoldsKey keys key pair
  | .sign request authority passphrase _ extensions _ =>
    Signable keys t request authority passphrase extensions

namespace InProcess

open Work

variable {p out : Path} {w : World Entropy} {α β : Type}

/-- Work that gives something of a kind, or is refused because there is nothing of the kind. It
    leaves everything as it is. -/
def Decides (x : Step α) (w : World Entropy) (kind : α → Prop) : Prop :=
  (∃ a, kind a ∧ x.runOn w = (.ok a, w)) ∨
    (∀ a, ¬kind a) ∧ ∃ e, x.runOn w = (.error (.refused e), w)

theorem Decides.bind {x : Step α} {kind : α → Prop} (h : Decides x w kind) (f : α → Step β) :
    (∃ a, kind a ∧ (x >>= f).runOn w = (f a).runOn w) ∨
      (∀ a, ¬kind a) ∧ ∃ e, (x >>= f).runOn w = (.error (.refused e), w) := by
  rcases h with ⟨a, found, ran⟩ | ⟨none, e, ran⟩
  · exact .inl ⟨a, found, runOn_bind_ok f ran⟩
  · exact .inr ⟨none, e, runOn_bind_error f ran⟩

theorem Decides.before {x : Step α} {f : α → Step β} {kind : α → Prop} {goal : β → Prop}
    (h : Decides x w kind) (needs : ∀ b, goal b → ∃ a, kind a)
    (next : ∀ a, kind a → Decides (f a) w goal) : Decides (x >>= f) w goal := by
  rcases h.bind f with ⟨a, found, ran⟩ | ⟨none, e, ran⟩
  · rw [Decides, ran]
    exact next a found
  · exact .inr ⟨fun b reached => (needs b reached).elim none, e, ran⟩

theorem decides_lift {δ : Type} (blame : δ → SigningError) (r : Except δ α) (w : World Entropy) :
    Decides (lift (fun fault => .refused (blame fault)) r) w (r = .ok ·) := by
  cases r with
  | error fault => exact .inr ⟨nofun, _, rfl⟩
  | ok a => exact .inl ⟨a, rfl, rfl⟩

theorem decides_readText (p : Path) (w : World Entropy) :
    Decides (readText p) w (w.tree.readText p = .ok ·) := by
  rw [Decides, readText, look, runOn_bind, runOn_tree]
  dsimp only
  cases w.tree.readText p with
  | error failure =>
    refine .inr ⟨fun text read => ?_, _, rfl⟩
    cases read
  | ok text => exact .inl ⟨text, rfl, rfl⟩

theorem decides_readKey (keys : KeyScheme κ) (p : Path) (w : World Entropy) :
    Decides (readKey keys p) w (w.tree.HoldsKey keys p) := by
  refine (decides_readText p w).before (fun pair held => ?_) fun text read => ?_
  · obtain ⟨text, read, _⟩ := held
    exact ⟨text, read⟩
  rcases decides_lift (fun fault => .crypto (.keyFile p fault)) (keys.ofText text) w with
    ⟨pair, parsed, ran⟩ | ⟨none, e, ran⟩
  · exact .inl ⟨pair, ⟨text, read, parsed⟩, ran⟩
  · refine .inr ⟨fun pair held => ?_, e, ran⟩
    obtain ⟨text', read', parsed⟩ := held
    cases read.symm.trans read'
    exact none pair parsed

theorem runOn_writeNew (out : Path) (mode : FileMode) (content : Bytes) (w : World Entropy) :
    (writeNew out mode content).runOn w =
      match w.tree.create out mode content with
      | .ok t => (.ok (), { w with tree := t })
      | .error failure => (.error (.refused (.io out failure)), w) := runOn_change _ _ _

/-- How the making of a certificate ends. It changes no file but the one that it makes. -/
inductive Certification (keys : KeyScheme κ) (pair : κ) (body : Date × Date → CertificateBody)
    (now : Instant) (days : Nat) (out : Path) (t : FileTree) :
    Except Stop Unit → FileTree → Prop where
  | made {window : Date × Date} {once : Nat} {der : Bytes} {after : FileTree}
    (dated : validity now days = some window)
    (signed : (body window).sign keys pair once = .ok der)
    (created : t.create out .plain (Certificate.print der) = .ok after) :
    Certification keys pair body now days out t (.ok ()) after
  | undated (undated : validity now days = none) :
    Certification keys pair body now days out t (.error .aborted) t
  | unsigned {window : Date × Date} {once : Nat} (dated : validity now days = some window)
    (unsigned : (body window).sign keys pair once = .error .signature) :
    Certification keys pair body now days out t
      (.error (.refused (.crypto (.material .signature)))) t
  | occupied {window : Date × Date} {once : Nat} {der : Bytes} {failure : FileFailure}
    (dated : validity now days = some window)
    (signed : (body window).sign keys pair once = .ok der)
    (uncreated : t.create out .plain (Certificate.print der) = .error failure) :
    Certification keys pair body now days out t (.error (.refused (.io out failure))) t

theorem Certification.read {pair : κ} {body : Date × Date → CertificateBody} {now : Instant}
    {days : Nat} {t after : FileTree} {result : Except Stop Unit} {content : Bytes}
    (ended : Certification keys pair body now days out t result after)
    (read : t.read p = .ok content) : after.read p = .ok content := by
  cases ended with
  | made _ _ created => exact FileTree.read_after_create read created
  | _ => exact read

theorem Certification.of_ok {pair : κ} {body : Date × Date → CertificateBody} {now : Instant}
    {days : Nat} {t after : FileTree}
    (ended : Certification keys pair body now days out t (.ok ()) after) :
    ∃ window, validity now days = some window ∧ after.HoldsCertificate keys out (body window) := by
  cases ended with
  | made dated signed created =>
    exact ⟨_, dated, pair, _, _, signed, FileTree.read_of_create created⟩

theorem runOn_window {now : Instant} {days : Nat} {dates : Date × Date}
    (dated : validity now days = some dates) (w : World Entropy) :
    (window now days).runOn w = (.ok dates, w) := by
  rw [window, dated]
  rfl

theorem runOn_scalar (w : World Entropy) :
    scalar.runOn w = (.ok w.memory.scalar.1, ⟨w.tree, w.memory.scalar.2⟩) := rfl

theorem runOn_material_ok (a : α) (f : α → Step β) (w : World Entropy) :
    (material (.ok a) >>= f).runOn w = (f a).runOn w := rfl

theorem runOn_writeCertificate (keys : KeyScheme κ) (pair : κ)
    (body : Date × Date → CertificateBody) (now : Instant) (days : Nat) (out : Path)
    (w : World Entropy) :
    Certification keys pair body now days out w.tree
      ((writeCertificate keys pair body now days out).runOn w).1
      ((writeCertificate keys pair body now days out).runOn w).2.tree := by
  cases dated : validity now days with
  | none =>
    have ran : (window now days).runOn w = (.error .aborted, w) := by
      rw [window, dated]
      rfl
    rw [writeCertificate, runOn_bind_error _ ran]
    exact .undated dated
  | some dates =>
    rw [writeCertificate, runOn_bind_ok _ (runOn_window dated w), runOn_bind_ok _ (runOn_scalar w)]
    cases signed : (body dates).sign keys pair w.memory.scalar.1 with
    | error fault =>
      obtain rfl := KeyScheme.fault_of_signed signed
      exact .unsigned dated signed
    | ok der =>
      rw [runOn_material_ok, runOn_writeNew]
      dsimp only
      split
      · next created => exact .made dated signed created
      · next uncreated => exact .occupied dated signed uncreated

theorem runOn_writeCertificate_ok {pair : κ} {body : Date × Date → CertificateBody} {now : Instant}
    {days : Nat} {dates : Date × Date} {der : Bytes} {t : FileTree}
    (dated : validity now days = some dates)
    (signed : (body dates).sign keys pair w.memory.scalar.1 = .ok der)
    (created : w.tree.create out .plain (Certificate.print der) = .ok t) :
    (writeCertificate keys pair body now days out).runOn w = (.ok (), ⟨t, w.memory.scalar.2⟩) := by
  rw [writeCertificate, runOn_bind_ok _ (runOn_window dated w), runOn_bind_ok _ (runOn_scalar w),
    signed, runOn_material_ok, runOn_writeNew]
  dsimp only
  rw [created]

theorem holdsCertificate_of_ok {x : Step Unit} {pair : κ} {body : Date × Date → CertificateBody}
    {now : Instant} {days : Nat} {between : World Entropy}
    (ran : x.runOn w = (writeCertificate keys pair body now days out).runOn between)
    (done : (x.runOn w).1 = .ok ()) : ∃ window, validity now days = some window ∧
      (x.runOn w).2.tree.HoldsCertificate keys out (body window) := by
  have ended := runOn_writeCertificate keys pair body now days out between
  rw [← ran, done] at ended
  exact ended.of_ok

theorem runOn_selfSign (keys : KeyScheme κ) (now : Instant) (key : Path)
    (passphrase : Option String) (subject : Subject) (days : Nat) (out : Path)
    (w : World Entropy) :
    (¬(passphrase = none ∧ ∃ pair, w.tree.HoldsKey keys key pair) ∧
      ∃ e, (selfSign keys now key passphrase subject days out).runOn w = (.error (.refused e), w)) ∨
    (passphrase = none ∧ ∃ pair, w.tree.HoldsKey keys key pair ∧
      (selfSign keys now key passphrase subject days out).runOn w =
        (writeCertificate keys pair
          (.authority subject (keys.publicKey pair) (Serial.ofBlock w.memory.block.1)) now days
          out).runOn ⟨w.tree, w.memory.block.2⟩) := by
  cases passphrase with
  | some => exact .inl ⟨fun ready => Option.some_ne_none _ ready.1, _, rfl⟩
  | none =>
    rcases (decides_readKey keys key w).bind _ with ⟨pair, held, ran⟩ | ⟨none, e, ran⟩
    · exact .inr ⟨rfl, pair, held, ran⟩
    · exact .inl ⟨fun ready => ready.2.elim none, e, ran⟩

/-- All that signing reads, before it takes a serial. -/
def gather (keys : KeyScheme κ) (request : Path) (authority : AuthorityFiles)
    (extensions : Option Path) : Step (Material κ) := do
  let t ← Work.tree
  let given ← Work.lift (fun error => .refused (.extensions error))
    (LeafExtensions.load t extensions)
  let pair ← readKey keys authority.key
  let cert ← readText authority.cert
  let issuer ← material (Certificate.issuerOfText cert keys pair)
  let text ← readText request
  let wish ← material (SigningRequest.wishOfText text keys)
  return ⟨given, pair, issuer, wish⟩

theorem decides_gather (keys : KeyScheme κ) (request : Path) (authority : AuthorityFiles)
    (extensions : Option Path) (w : World Entropy) :
    Decides (gather keys request authority extensions) w
      (Material.Found keys w.tree request authority extensions) := by
  rw [gather, Decides, runOn_bind_ok _ (runOn_tree w)]
  refine (decides_lift _ _ w).before (fun m found => ⟨_, found.given⟩) fun given loaded => ?_
  refine (decides_readKey keys authority.key w).before (fun m found => ⟨_, found.pair⟩)
    fun pair held => ?_
  refine (decides_readText authority.cert w).before (fun m found => ?_) fun cert certified => ?_
  · obtain ⟨cert, certified, _⟩ := found.issuer
    exact ⟨cert, certified⟩
  refine (decides_lift _ _ w).before (fun m found => ?_) fun issuer issued => ?_
  · obtain ⟨cert', certified', issued⟩ := found.issuer
    cases certified.symm.trans certified'
    rw [← held.unique found.pair] at issued
    exact ⟨m.issuer, issued⟩
  refine (decides_readText request w).before (fun m found => ?_) fun text asked => ?_
  · obtain ⟨text, asked, _⟩ := found.wish
    exact ⟨text, asked⟩
  refine (decides_lift _ _ w).before (fun m found => ?_) fun wish wished => ?_
  · obtain ⟨text', asked', wished⟩ := found.wish
    cases asked.symm.trans asked'
    exact ⟨m.wish, wished⟩
  exact .inl ⟨⟨given, pair, issuer, wish⟩,
    ⟨loaded, held, ⟨cert, certified, issued⟩, text, asked, wished⟩, rfl⟩

theorem signRequest_eq (keys : KeyScheme κ) (now : Instant) (request : Path)
    (authority : AuthorityFiles) (days : Nat) (extensions : Option Path) (out : Path) :
    signRequest keys now request authority none days extensions out =
      gather keys request authority extensions >>= fun m => nextSerial authority.serial >>=
        fun serial => writeCertificate keys m.pair (.leaf m.issuer m.wish m.given serial) now days
          out := by
  simp only [signRequest, gather, bind_assoc, pure_bind]
  rfl

theorem runOn_signRequest (keys : KeyScheme κ) (now : Instant) (request : Path)
    (authority : AuthorityFiles) (passphrase : Option String) (days : Nat)
    (extensions : Option Path) (out : Path) (w : World Entropy) :
    (¬(passphrase = none ∧ ∃ m : Material κ, m.Found keys w.tree request authority extensions) ∧
      ∃ e, (signRequest keys now request authority passphrase days extensions out).runOn w =
        (.error (.refused e), w)) ∨
    (passphrase = none ∧ ∃ m : Material κ, m.Found keys w.tree request authority extensions ∧
      (signRequest keys now request authority passphrase days extensions out).runOn w =
        (nextSerial authority.serial >>= fun serial => writeCertificate keys m.pair
          (.leaf m.issuer m.wish m.given serial) now days out).runOn w) := by
  cases passphrase with
  | some => exact .inl ⟨fun ready => Option.some_ne_none _ ready.1, _, rfl⟩
  | none =>
    rw [signRequest_eq]
    rcases (decides_gather keys request authority extensions w).bind _ with
      ⟨m, found, ran⟩ | ⟨none, e, ran⟩ <;> rw [ran]
    · exact .inr ⟨rfl, m, found, rfl⟩
    · exact .inl ⟨fun ⟨_, m, found⟩ => none m found, e, rfl⟩

/-- A request that may not be signed is refused before anything is written. For any other one a
    serial is taken and noted, and the rest of the work is to make the certificate. -/
theorem signRequest_counts (keys : KeyScheme κ) (now : Instant) (request : Path)
    (authority : AuthorityFiles) (passphrase : Option String) (days : Nat)
    (extensions : Option Path) (out : Path) (w : World Entropy) :
    (¬Signable keys w.tree request authority passphrase extensions ∧ ∃ e after,
      (signRequest keys now request authority passphrase days extensions out).runOn w =
        (.error (.refused e), after) ∧ after.tree = w.tree) ∨
    (Signable keys w.tree request authority passphrase extensions ∧ ∃ m : Material κ,
      m.Found keys w.tree request authority extensions ∧ ∃ serial counted,
      (w.tree.counter authority.serial).Allows serial ∧
      w.tree.write authority.serial (Text.Utf8.encode (Serial.print serial)) = .ok counted.tree ∧
      (signRequest keys now request authority passphrase days extensions out).runOn w =
        (writeCertificate keys m.pair (.leaf m.issuer m.wish m.given serial) now days out).runOn
          counted) := by
  rcases runOn_signRequest keys now request authority passphrase days extensions out w with
    ⟨unready, e, refused⟩ | ⟨unprotected, m, found, ran⟩
  · exact .inl ⟨fun ready => unready ⟨ready.unprotected, ready.found⟩, e, w, refused, rfl⟩
  rcases runOn_nextSerial authority.serial w with ⟨stuck, e, after, refused, same⟩ |
    ⟨⟨readable, writable⟩, serial, counted, taken, allowed, written⟩
  · rw [ran, runOn_bind_error _ refused]
    exact .inl ⟨fun ready => stuck.elim ready.readable ready.writable, e, after, rfl, same⟩
  · rw [ran, runOn_bind_ok _ taken]
    exact .inr ⟨⟨unprotected, ⟨m, found⟩, readable, writable⟩, m, found, serial, counted, allowed,
      written, rfl⟩

end InProcess

namespace Sample

def files : AuthorityFiles := .ofName ⟨"CA"⟩ "ca"

def pair : KeyPair := ⟨1, Crypto.P256.generator⟩

def subject : Subject := ⟨[(.commonName, "client")]⟩

def body (window : Date × Date) : CertificateBody :=
  .authority subject (KeyScheme.p256.publicKey pair) [1] window

def certificate : Bytes := ((body ⟨⟨1970, 1, 1⟩, ⟨1971, 5, 16⟩⟩).sign .p256 pair 1).toOption.getD []

def asked : Bytes := (SigningRequest.sign subject .p256 pair 1).toOption.getD []

def request : Path := ⟨"client.csr"⟩

/-- An authority that has counted to 2587, in digits that are not all upper-case, and a request. -/
def tree : FileTree :=
  (((((FileTree.empty []).put ["CA"] .directory).put ["CA", "ca.key"]
    (.file .ownerOnly (KeyScheme.p256.print pair))).put ["CA", "ca.pem"]
    (.file .plain (Certificate.print certificate))).put
    ["CA", "ca.srl"] (.file .plain (Text.Utf8.encode "0a1B\n"))).put
    ["client.csr"] (.file .plain (SigningRequest.print asked))

def outset : World Entropy := ⟨tree, ⟨[], 0⟩⟩

def material : Material KeyPair where
  given := .default
  pair
  issuer := ⟨.ofSubject subject, keyIdentifier (KeyScheme.p256.publicKey pair)⟩
  wish := ⟨.ofSubject subject, [], KeyScheme.p256.publicKey pair⟩

theorem holdsKey : tree.HoldsKey .p256 files.key pair := by
  have keyed : tree.read files.key = .ok (Pem.Block.mk KeyScheme.label pair.bytes).print := by rfl
  exact FileTree.holdsKey_of_print keyed (by decide +kernel)

theorem found : material.Found .p256 tree request files none where
  given := rfl
  pair := holdsKey
  issuer := by
    have certified : tree.read files.cert = .ok (Certificate.print certificate) := by rfl
    exact FileTree.issuer_of_print certified (by decide +kernel)
  wish := by
    have requested : tree.read request = .ok (SigningRequest.print asked) := by rfl
    exact FileTree.wish_of_print requested (by decide +kernel)

theorem counter : tree.counter files.serial = .last [0x0A, 0x1B] := by decide +kernel

def leaf (window : Date × Date) : CertificateBody :=
  .leaf material.issuer material.wish material.given [0x0A, 0x1C] window

def counted : FileTree :=
  tree.put ["CA", "ca.srl"] (.file .plain (Text.Utf8.encode "0A1C\n"))

theorem signable : Signable .p256 tree request files none none :=
  ⟨rfl, ⟨material, found⟩, by rw [counter]; nofun, by decide +kernel⟩

theorem written : tree.write files.serial (Text.Utf8.encode (Serial.print [0x0A, 0x1C])) =
    .ok counted := by
  have put (content : Bytes) : tree.write files.serial content =
      .ok (tree.put ["CA", "ca.srl"] (.file .plain content)) := rfl
  have printed : Serial.print [0x0A, 0x1C] = "0A1C\n" := by decide
  rw [put, printed, counted]

theorem created (content : Bytes) : counted.create ⟨"client.crt"⟩ .plain content =
    .ok (counted.put ["client.crt"] (.file .plain content)) := rfl

def newYearsEve : Instant := 2524607999

/-- A hundred years of 365 days and a quarter. -/
def century : Date × Date := (⟨2049, 12, 31⟩, ⟨2150, 1, 1⟩)

theorem validity_newYearsEve : validity newYearsEve 36525 = some century := by decide +kernel

theorem exists_signed : ∃ der, (leaf century).sign .p256 pair outset.memory.scalar.1 = .ok der ∧
    der.length < 65536 := by
  have short : (((leaf century).sign .p256 pair outset.memory.scalar.1).toOption.any
      (·.length < 65536)) = true := by
    decide +kernel
  obtain ⟨der, signed, short⟩ := (Option.any_eq_true _ _).1 short
  exact ⟨der, eq_ok_of_toOption signed, of_decide_eq_true short⟩

theorem runOn_sign : ∃ der memory, der.length < 65536 ∧
    (InProcess.perform .p256 newYearsEve (.sign request files none 36525 none ⟨"client.crt"⟩)).runOn
        outset =
      (.ok (), ⟨counted.put ["client.crt"] (.file .plain (Certificate.print der)), memory⟩) := by
  have next : Serial.increment [0x0A, 0x1B] = [0x0A, 0x1C] := by decide
  have numbered := InProcess.runOn_nextSerial_of_last (w := outset) counter (next ▸ written)
  rw [next] at numbered
  obtain ⟨der, signed, short⟩ := exists_signed
  rcases InProcess.runOn_signRequest .p256 newYearsEve request files none 36525 none
    ⟨"client.crt"⟩ outset with ⟨unready, _⟩ | ⟨_, m, found', ran⟩
  · exact absurd ⟨rfl, material, found⟩ unready
  obtain rfl := found'.unique found
  refine ⟨der, outset.memory.scalar.2, short, ?_⟩
  rw [InProcess.perform, ran, Work.runOn_bind_ok _ numbered]
  exact InProcess.runOn_writeCertificate_ok validity_newYearsEve signed (created _)

end Sample

end Signer

end NetworkCa
