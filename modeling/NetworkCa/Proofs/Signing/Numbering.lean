import Mathlib.Data.List.Forall2
import Mathlib.Data.List.Nodup
import NetworkCa.Proofs.Signing.Backends
import NetworkCa.Proofs.Signing.Readiness

namespace NetworkCa

open Signer.InProcess

def CertificateBody.number (c : CertificateBody) : Nat :=
  Der.natOfBytes (Der.positiveContent c.serial)

/-- One request for a signature, on the files that are there by then and whatever is drawn for
    it. -/
structure Turn where
  now : Instant
  request : Path
  passphrase : Option String
  days : Nat
  extensions : Option Path
  out : Path
  before : World Entropy

namespace Turn

variable {κ : Type} {keys : KeyScheme κ} {authority : AuthorityFiles} {turn : Turn}
  {serial : Bytes}

def outcome (turn : Turn) (keys : KeyScheme κ) (authority : AuthorityFiles) :
    Except Stop Unit × World Entropy :=
  (perform keys turn.now (.sign turn.request authority turn.passphrase turn.days turn.extensions
    turn.out)).runOn turn.before

def after (turn : Turn) (keys : KeyScheme κ) (authority : AuthorityFiles) : FileTree :=
  (turn.outcome keys authority).2.tree

def succeeds (turn : Turn) (keys : KeyScheme κ) (authority : AuthorityFiles) : Bool :=
  (turn.outcome keys authority).1.toBool

/-- The serial that is the last one by now and was not before. -/
def taken? (turn : Turn) (keys : KeyScheme κ) (authority : AuthorityFiles) : Option Bytes :=
  match (turn.after keys authority).counter authority.serial with
  | .last serial =>
    if turn.before.tree.counter authority.serial = .last serial then none else some serial
  | _ => none

structure Idle (turn : Turn) (keys : KeyScheme κ) (authority : AuthorityFiles) : Prop where
  refused : ∃ e, (turn.outcome keys authority).1 = .error (.refused e)
  unchanged : turn.after keys authority = turn.before.tree

theorem Idle.fails (idle : turn.Idle keys authority) : turn.succeeds keys authority = false := by
  obtain ⟨e, refused⟩ := idle.refused
  rw [succeeds, refused]
  rfl

structure Certifies (turn : Turn) (keys : KeyScheme κ) (authority : AuthorityFiles)
    (body : CertificateBody) : Prop where
  succeeds : turn.succeeds keys authority = true
  numbered : turn.taken? keys authority = some body.serial
  made : (turn.after keys authority).HoldsCertificate keys turn.out body

/-- A turn that takes a serial and, unless it fails thereafter, puts it into a certificate. -/
structure Takes (turn : Turn) (keys : KeyScheme κ) (authority : AuthorityFiles) (serial : Bytes) :
    Prop where
  allowed : (turn.before.tree.counter authority.serial).Allows serial
  kept : (turn.after keys authority).read authority.serial =
    .ok (Text.Utf8.encode (Serial.print serial))
  certified : turn.succeeds keys authority = true → ∃ body, body.serial = serial ∧
    (turn.after keys authority).HoldsCertificate keys turn.out body

theorem takes_of_signable (turn : Turn) (ready : Signer.Signable keys turn.before.tree turn.request
    authority turn.passphrase turn.extensions) : ∃ serial, turn.Takes keys authority serial := by
  have ran : turn.outcome keys authority = (signRequest keys turn.now turn.request authority
    turn.passphrase turn.days turn.extensions turn.out).runOn turn.before := rfl
  rcases signRequest_counts keys turn.now turn.request authority turn.passphrase turn.days
    turn.extensions turn.out turn.before with ⟨unready, _⟩ |
    ⟨_, m, _, serial, counted, allowed, written, onward⟩
  · exact absurd ready unready
  have ended := runOn_writeCertificate keys m.pair (.leaf m.issuer m.wish m.given serial) turn.now
    turn.days turn.out counted
  rw [← onward, ← ran] at ended
  refine ⟨serial, allowed, ended.read (FileTree.read_of_write written), fun success => ?_⟩
  have done : (turn.outcome keys authority).1 = .ok () := by
    rw [succeeds] at success
    cases result : (turn.outcome keys authority).1 with
    | error =>
      rw [result] at success
      cases success
    | ok => rfl
  obtain ⟨window, _, held⟩ := holdsCertificate_of_ok onward done
  exact ⟨.leaf m.issuer m.wish m.given serial window, rfl, held⟩

theorem takes_of_last (turn : Turn) {before : Bytes} (ready : Signer.Signable keys turn.before.tree
    turn.request authority turn.passphrase turn.extensions)
    (counter : turn.before.tree.counter authority.serial = .last before) :
    turn.Takes keys authority (Serial.increment before) := by
  obtain ⟨serial, takes⟩ := turn.takes_of_signable ready
  have allowed := takes.allowed
  rw [counter] at allowed
  exact allowed ▸ takes

theorem idle_or_takes (turn : Turn) (keys : KeyScheme κ) (authority : AuthorityFiles) :
    turn.Idle keys authority ∨ ∃ serial, turn.Takes keys authority serial := by
  have ran : turn.outcome keys authority = (signRequest keys turn.now turn.request authority
    turn.passphrase turn.days turn.extensions turn.out).runOn turn.before := rfl
  rcases signRequest_counts keys turn.now turn.request authority turn.passphrase turn.days
    turn.extensions turn.out turn.before with ⟨_, e, between, refused, same⟩ | ⟨ready, _⟩
  · rw [refused] at ran
    exact .inl ⟨⟨e, by rw [ran]⟩, by rw [after, ran, same]⟩
  · exact .inr (turn.takes_of_signable ready)

theorem Idle.taken?_eq_none (idle : turn.Idle keys authority) :
    turn.taken? keys authority = none := by
  rw [taken?, idle.unchanged]
  cases turn.before.tree.counter authority.serial with
  | unset => rfl
  | last serial => exact if_pos rfl
  | unreadable => rfl

theorem Takes.counter (takes : turn.Takes keys authority serial) :
    (turn.after keys authority).counter authority.serial = .last serial :=
  FileTree.counter_of_read takes.kept

theorem Takes.taken?_eq_some (takes : turn.Takes keys authority serial) :
    turn.taken? keys authority = some serial := by
  have new : turn.before.tree.counter authority.serial ≠ .last serial := by
    intro same
    have next := takes.allowed
    rw [same] at next
    have higher := Serial.natOfBytes_increment serial
    rw [← next] at higher
    exact absurd higher (Nat.ne_of_lt (Nat.lt_succ_self _))
  rw [taken?, takes.counter]
  exact if_neg new

end Turn

namespace Numbering

variable {κ : Type} {keys : KeyScheme κ} {authority : AuthorityFiles} {start : FileTree}
  {turns : List Turn} {turn : Turn} {before serial : Bytes}

/-- From turn to turn, nothing else sets the number of the serial file. -/
def Undisturbed (keys : KeyScheme κ) (authority : AuthorityFiles) : FileTree → List Turn → Prop
  | _, [] => True
  | t, turn :: later =>
    turn.before.tree.counter authority.serial = t.counter authority.serial ∧
      Undisturbed keys authority (turn.after keys authority) later

def inSequence (keys : KeyScheme κ) (authority : AuthorityFiles) (w : World Entropy) :
    List Turn → List Turn
  | [] => []
  | turn :: later =>
    let next := { turn with before := w }
    next :: inSequence keys authority (next.outcome keys authority).2 later

theorem undisturbed_inSequence (keys : KeyScheme κ) (authority : AuthorityFiles)
    (w : World Entropy) (turns : List Turn) :
    Undisturbed keys authority w.tree (inSequence keys authority w turns) := by
  induction turns generalizing w with
  | nil => trivial
  | cons turn later ih => exact ⟨rfl, ih _⟩

def taken (keys : KeyScheme κ) (authority : AuthorityFiles) (turns : List Turn) : List Bytes :=
  turns.filterMap (·.taken? keys authority)

theorem taken_cons_of_idle (idle : turn.Idle keys authority) :
    taken keys authority (turn :: turns) = taken keys authority turns :=
  List.filterMap_cons_none idle.taken?_eq_none

theorem taken_cons_of_takes (takes : turn.Takes keys authority serial) :
    taken keys authority (turn :: turns) = serial :: taken keys authority turns :=
  List.filterMap_cons_some takes.taken?_eq_some

theorem numbers_of_last (undisturbed : Undisturbed keys authority start turns)
    (counter : start.counter authority.serial = .last before) :
    (taken keys authority turns).map Der.natOfBytes =
      List.range' (Der.natOfBytes before + 1) (taken keys authority turns).length := by
  induction turns generalizing start before with
  | nil => rfl
  | cons turn later ih =>
    obtain ⟨same, later⟩ := undisturbed
    rcases turn.idle_or_takes keys authority with idle | ⟨serial, takes⟩
    · rw [taken_cons_of_idle idle]
      exact ih later (by rw [idle.unchanged, same, counter])
    · have next : Der.natOfBytes serial = Der.natOfBytes before + 1 := by
        have allowed := takes.allowed
        rw [same, counter] at allowed
        rw [allowed, Serial.natOfBytes_increment]
      rw [taken_cons_of_takes takes, List.map_cons, List.length_cons, List.range'_succ, next,
        ih later takes.counter, next]

theorem numbers_of_unset (undisturbed : Undisturbed keys authority start turns)
    (counter : start.counter authority.serial = .unset) {first : Bytes} {later : List Bytes}
    (serials : taken keys authority turns = first :: later) :
    Serial.Fresh first ∧
      later.map Der.natOfBytes = List.range' (Der.natOfBytes first + 1) later.length := by
  induction turns generalizing start with
  | nil => cases serials
  | cons turn turns ih =>
    obtain ⟨same, onward⟩ := undisturbed
    rcases turn.idle_or_takes keys authority with idle | ⟨serial, takes⟩
    · rw [taken_cons_of_idle idle] at serials
      exact ih onward (by rw [idle.unchanged, same, counter]) serials
    · rw [taken_cons_of_takes takes] at serials
      cases serials
      have fresh := takes.allowed
      rw [same, counter] at fresh
      exact ⟨fresh, numbers_of_last onward takes.counter⟩

theorem idle_of_unreadable (undisturbed : Undisturbed keys authority start turns)
    (counter : start.counter authority.serial = .unreadable) :
    ∀ turn ∈ turns, turn.Idle keys authority := by
  induction turns generalizing start with
  | nil => simp
  | cons turn later ih =>
    obtain ⟨same, onward⟩ := undisturbed
    have idle : turn.Idle keys authority := by
      rcases turn.idle_or_takes keys authority with idle | ⟨serial, takes⟩
      · exact idle
      · have allowed := takes.allowed
        rw [same, counter] at allowed
        exact allowed.elim
    have rest := ih onward (by rw [idle.unchanged, same, counter])
    intro other member
    rcases List.mem_cons.1 member with rfl | member
    · exact idle
    · exact rest other member

theorem numbers_consecutive (undisturbed : Undisturbed keys authority start turns) :
    ∃ first, (taken keys authority turns).map Der.natOfBytes =
      List.range' first (taken keys authority turns).length := by
  cases counter : start.counter authority.serial with
  | last before => exact ⟨_, numbers_of_last undisturbed counter⟩
  | unset =>
    cases serials : taken keys authority turns with
    | nil => exact ⟨0, rfl⟩
    | cons first later =>
      obtain ⟨_, onward⟩ := numbers_of_unset undisturbed counter serials
      refine ⟨Der.natOfBytes first, ?_⟩
      rw [List.map_cons, onward, List.length_cons, List.range'_succ]
  | unreadable =>
    have none : taken keys authority turns = [] := by
      rw [taken, List.filterMap_eq_nil_iff]
      exact fun turn member =>
        (idle_of_unreadable undisturbed counter turn member).taken?_eq_none
    exact ⟨0, by rw [none]; rfl⟩

theorem certificates (keys : KeyScheme κ) (authority : AuthorityFiles) (turns : List Turn) :
    ∃ bodies, List.Forall₂ (·.Certifies keys authority)
        (turns.filter (·.succeeds keys authority)) bodies ∧
      (bodies.map (·.serial)).Sublist (taken keys authority turns) := by
  induction turns with
  | nil => exact ⟨[], .nil, .slnil⟩
  | cons turn later ih =>
    obtain ⟨bodies, certified, serials⟩ := ih
    rcases turn.idle_or_takes keys authority with idle | ⟨serial, takes⟩
    · rw [taken_cons_of_idle idle, List.filter_cons_of_neg (by simp [idle.fails])]
      exact ⟨bodies, certified, serials⟩
    · rw [taken_cons_of_takes takes]
      by_cases success : turn.succeeds keys authority = true
      · obtain ⟨body, rfl, made⟩ := takes.certified success
        have certifies : turn.Certifies keys authority body :=
          ⟨success, takes.taken?_eq_some, made⟩
        rw [List.filter_cons_of_pos (by exact success)]
        exact ⟨body :: bodies, .cons certifies certified, serials.cons_cons body.serial⟩
      · rw [List.filter_cons_of_neg (by exact success)]
        -- The serial is taken all the same, and no certificate has it.
        exact ⟨bodies, certified, serials.cons serial⟩

def Rising (keys : KeyScheme κ) (authority : AuthorityFiles) (turns : List Turn) : Prop :=
  ∃ bodies, List.Forall₂ (·.Certifies keys authority)
      (turns.filter (·.succeeds keys authority)) bodies ∧
    (bodies.map (·.serial)).Sublist (taken keys authority turns) ∧
    (bodies.map (·.number)).Pairwise (· < ·) ∧ (bodies.map (·.serial)).Nodup

theorem rising (undisturbed : Undisturbed keys authority start turns) :
    Rising keys authority turns := by
  obtain ⟨bodies, certified, serials⟩ := certificates keys authority turns
  obtain ⟨first, numbers⟩ := numbers_consecutive undisturbed
  have higher : ((bodies.map (·.serial)).map Der.natOfBytes).Pairwise (· < ·) := by
    apply List.Pairwise.sublist (serials.map Der.natOfBytes)
    rw [numbers]
    exact List.pairwise_lt_range'
  have same : bodies.map (·.number) = (bodies.map (·.serial)).map Der.natOfBytes := by
    rw [List.map_map]
    exact List.map_congr_left fun body _ => Der.natOfBytes_positiveContent body.serial
  exact ⟨bodies, certified, serials, same ▸ higher,
    .of_map Der.natOfBytes (higher.imp fun less => Nat.ne_of_lt less)⟩

/-- What a run of turns, some of which may fail, does with the serials of an authority. -/
structure Numbered (keys : KeyScheme κ) (authority : AuthorityFiles) (start : FileTree)
    (turns : List Turn) : Prop where
  onward : ∀ before, start.counter authority.serial = .last before →
    (taken keys authority turns).map Der.natOfBytes =
      List.range' (Der.natOfBytes before + 1) (taken keys authority turns).length
  afresh : start.counter authority.serial = .unset → ∀ first later,
    taken keys authority turns = first :: later → Serial.Fresh first ∧
      later.map Der.natOfBytes = List.range' (Der.natOfBytes first + 1) later.length
  stuck : start.counter authority.serial = .unreadable → ∀ turn ∈ turns, turn.Idle keys authority
  idle : ∀ turn ∈ turns, turn.taken? keys authority = none → turn.Idle keys authority
  kept : ∀ turn ∈ turns, ∀ serial, turn.taken? keys authority = some serial →
    (turn.after keys authority).read authority.serial =
        .ok (Text.Utf8.encode (Text.Hex.upper serial ++ "\n")) ∧
      (turn.after keys authority).counter authority.serial = .last serial
  rising : Rising keys authority turns

/-- The serials of a run count up from where the serial file stood, and no certificate gets the
    serial of another one. -/
theorem run_numbered (undisturbed : Undisturbed keys authority start turns) :
    Numbered keys authority start turns where
  onward _ := numbers_of_last undisturbed
  afresh counter _ _ := numbers_of_unset undisturbed counter
  stuck := idle_of_unreadable undisturbed
  idle turn _ none := by
    rcases turn.idle_or_takes keys authority with idle | ⟨serial, takes⟩
    · exact idle
    · rw [takes.taken?_eq_some] at none
      cases none
  kept turn _ serial some := by
    rcases turn.idle_or_takes keys authority with idle | ⟨serial', takes⟩
    · rw [idle.taken?_eq_none] at some
      cases some
    · rw [takes.taken?_eq_some] at some
      cases some
      exact ⟨takes.kept, takes.counter⟩
  rising := rising undisturbed

namespace Sample

open Signer.Sample

def first : Turn where
  now := newYearsEve
  request := request
  passphrase := none
  days := 36525
  extensions := none
  out := ⟨"client.crt"⟩
  before := outset

def blocked : Turn := { first with passphrase := some "secret" }

def again (certificate : Bytes) (memory : Entropy) : Turn :=
  { first with before :=
      ⟨counted.put ["client.crt"] (.file .plain certificate), memory⟩ }

def requests : List Turn := inSequence .p256 files outset [blocked, first, first]

theorem outcome_blocked :
    blocked.outcome .p256 files = (.error (.refused (.unsupported "native"
      "passphrase protected CA keys")), outset) := rfl

theorem requests_eq : ∃ certificate memory,
    requests = [blocked, first, again certificate memory] ∧
      first.outcome .p256 files = (.ok (), (again certificate memory).before) := by
  obtain ⟨der, memory, _, signed⟩ := runOn_sign
  have ran : first.outcome .p256 files = (.ok (), (again (Certificate.print der) memory).before) :=
    signed
  refine ⟨Certificate.print der, memory, ?_, ran⟩
  have unmoved (turn : Turn) (w : World Entropy) (later : List Turn) :
      inSequence .p256 files w (turn :: later) = { turn with before := w } ::
        inSequence .p256 files ({ turn with before := w }.outcome .p256 files).2 later := rfl
  have start : { blocked with before := outset } = blocked := rfl
  have second : { first with before := outset } = first := rfl
  rw [requests, unmoved, start, outcome_blocked, unmoved, second, ran]
  rfl

theorem idle_blocked : blocked.Idle .p256 files :=
  ⟨⟨_, congrArg Prod.fst outcome_blocked⟩, congrArg (·.2.tree) outcome_blocked⟩

theorem succeeds_first : first.succeeds .p256 files = true := by
  obtain ⟨certificate, memory, _, ran⟩ := requests_eq
  rw [Turn.succeeds, ran]
  rfl

theorem takes_first : first.Takes .p256 files [0x0A, 0x1C] := by
  have next : Serial.increment [0x0A, 0x1B] = [0x0A, 0x1C] := by decide
  exact next ▸ first.takes_of_last signable Signer.Sample.counter

section Again

variable (certificate : Bytes) (memory : Entropy)

theorem read_again : ∀ p ∈ [files.key, files.cert, request],
    (again certificate memory).before.tree.read p = tree.read p := by
  intro p asked
  simp only [List.mem_cons, List.not_mem_nil, or_false] at asked
  rcases asked with rfl | rfl | rfl <;> rfl

theorem counter_again :
    (again certificate memory).before.tree.counter files.serial = .last [0x0A, 0x1C] := by
  have printed : Serial.print [0x0A, 0x1C] = "0A1C\n" := by decide
  apply FileTree.counter_of_read
  rw [printed]
  rfl

theorem takes_again : (again certificate memory).Takes .p256 files [0x0A, 0x1D] := by
  have next : Serial.increment [0x0A, 0x1C] = [0x0A, 0x1D] := by decide
  have counted := counter_again certificate memory
  refine next ▸ (again certificate memory).takes_of_last ⟨rfl, ?_, ?_, nofun⟩ counted
  · exact ⟨material, found.congr (read_again certificate memory)⟩
  · rw [counted]
    nofun

theorem fails_again : (again certificate memory).succeeds .p256 files = false := by
  have occupied : (again certificate memory).before.tree.vacancy? ⟨"client.crt"⟩ = none := rfl
  rw [Turn.succeeds]
  rcases ran : (again certificate memory).outcome .p256 files with ⟨stop | _, after⟩
  · rfl
  · have outputs := outputs_signRequest .p256 newYearsEve request files none 36525 none ⟨"client.crt"⟩
    obtain ⟨place, _, _, vacant, _⟩ := outputs.adds.makes _ _ ran
    cases occupied.symm.trans vacant

end Again

theorem taken_requests : taken .p256 files requests = [[0x0A, 0x1C], [0x0A, 0x1D]] := by
  obtain ⟨certificate, memory, three, _⟩ := requests_eq
  rw [three, taken_cons_of_idle idle_blocked, taken_cons_of_takes takes_first,
    taken_cons_of_takes (takes_again certificate memory)]
  rfl

theorem succeeds_requests : requests.map (·.succeeds .p256 files) = [false, true, false] := by
  obtain ⟨certificate, memory, three, _⟩ := requests_eq
  rw [three]
  simp only [List.map_cons, List.map_nil, idle_blocked.fails, succeeds_first,
    fails_again certificate memory]

theorem certifies_first :
    ∃ body, body.serial = [0x0A, 0x1C] ∧ first.Certifies .p256 files body := by
  obtain ⟨body, numbered, made⟩ := takes_first.certified succeeds_first
  have taken := takes_first.taken?_eq_some
  exact ⟨body, numbered, succeeds_first, numbered.symm ▸ taken, made⟩

theorem first_mem_requests : first ∈ requests := by
  obtain ⟨certificate, memory, three, _⟩ := requests_eq
  rw [three]
  exact .tail _ (.head _)

end Sample

open Signer.Sample Sample in
/-- Only the second request ends in a certificate, and the third one has a serial all the same. -/
theorem run_numbered_of_three : Undisturbed .p256 files tree requests ∧
    tree.counter files.serial = .last [0x0A, 0x1B] ∧
    taken .p256 files requests = [[0x0A, 0x1C], [0x0A, 0x1D]] ∧
    requests.map (·.succeeds .p256 files) = [false, true, false] ∧
    (∃ turn ∈ requests, ∃ body, body.serial = [0x0A, 0x1C] ∧ turn.Certifies .p256 files body) ∧
    Numbered .p256 files tree requests := by
  have undisturbed : Undisturbed .p256 files tree requests :=
    undisturbed_inSequence .p256 files outset [blocked, first, first]
  exact ⟨undisturbed, Signer.Sample.counter, taken_requests, succeeds_requests,
    ⟨first, first_mem_requests, certifies_first⟩, run_numbered undisturbed⟩

end Numbering

end NetworkCa
