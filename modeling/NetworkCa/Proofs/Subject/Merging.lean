import Mathlib.Data.List.Flatten
import Mathlib.Data.List.Induction
import Mathlib.Data.List.Nodup
import Mathlib.Data.List.Perm.Subperm
import NetworkCa.Signing.Command
import NetworkCa.Signing.InProcess

namespace NetworkCa

theorem Attribute.oid_injective {a b : Attribute} (h : a.oid = b.oid) : a = b := by
  have apart : ∀ a ∈ all, ∀ b ∈ all, a.oid = b.oid → a = b := by
    decide +kernel
  have known : ∀ a : Attribute, a ∈ all := fun a => by cases a <;> decide
  exact apart a (known a) b (known b) h

namespace Subject

variable {s : Subject} {attributes : List (Attribute × String)}

def kinds (s : Subject) : List Attribute := s.attributes.map (·.1)

def latest (s : Subject) (a : Attribute) : String := (s.attributes.reverse.lookup a).getD ""

/-- Every attribute once, in the order of their first places and with their last values. -/
def merged (s : Subject) : Subject := ⟨s.kinds.eraseDups.map fun a => (a, s.latest a)⟩

def nameParts (s : Subject) : List NamePart :=
  s.attributes.map fun (a, value) => .ofAttribute a value

theorem latest_concat (a b : Attribute) (value : String) :
    latest ⟨attributes ++ [(a, value)]⟩ b = if b = a then value else latest ⟨attributes⟩ b := by
  unfold latest
  rw [List.reverse_concat, List.lookup_cons]
  by_cases same : b = a
  · simp [same]
  · simp [same, beq_false_of_ne same]

theorem kinds_concat (a : Attribute) (value : String) :
    kinds ⟨attributes ++ [(a, value)]⟩ = kinds ⟨attributes⟩ ++ [a] := by
  rw [kinds, List.map_append]
  rfl

theorem eraseDups_concat (kinds : List Attribute) (a : Attribute) :
    (kinds ++ [a]).eraseDups = if a ∈ kinds then kinds.eraseDups else kinds.eraseDups ++ [a] := by
  rw [List.eraseDups_append]
  by_cases known : a ∈ kinds
  · simp [known, List.removeAll]
  · simp [known, List.removeAll, List.eraseDups_cons]

theorem nodup_eraseDups (kinds : List Attribute) : kinds.eraseDups.Nodup := by
  induction kinds using List.reverseRecOn with
  | nil => exact List.nodup_nil
  | append_singleton kinds a ih =>
    rw [eraseDups_concat]
    split
    · exact ih
    · next fresh =>
      have apart : a ∉ kinds.eraseDups := fun member => fresh (List.mem_eraseDups.1 member)
      simpa using List.Nodup.concat apart ih

theorem merged_concat_known {a : Attribute} (known : a ∈ kinds ⟨attributes⟩) (value : String) :
    (merged ⟨attributes ++ [(a, value)]⟩).attributes =
      (merged ⟨attributes⟩).attributes.map fun old => if old.1 = a then (a, value) else old := by
  unfold merged
  dsimp only
  rw [kinds_concat, eraseDups_concat, if_pos known, List.map_map]
  refine List.map_congr_left fun b _ => ?_
  rw [latest_concat]
  by_cases same : b = a
  · simp [same]
  · simp [same]

theorem merged_concat_fresh {a : Attribute} (fresh : a ∉ kinds ⟨attributes⟩) (value : String) :
    (merged ⟨attributes ++ [(a, value)]⟩).attributes =
      (merged ⟨attributes⟩).attributes ++ [(a, value)] := by
  unfold merged
  dsimp only
  rw [kinds_concat, eraseDups_concat, if_neg fresh, List.map_append, List.map_singleton,
    latest_concat, if_pos rfl]
  congr 1
  refine List.map_congr_left fun b member => ?_
  have other : b ≠ a := fun same => fresh (same ▸ List.mem_eraseDups.1 member)
  rw [latest_concat, if_neg other]

theorem kinds_merged (s : Subject) : s.merged.kinds = s.kinds.eraseDups := by
  simp [merged, kinds, Function.comp_def]

theorem nodup_kinds_merged (s : Subject) : s.merged.kinds.Nodup := by
  rw [kinds_merged]
  exact nodup_eraseDups s.kinds

end Subject

namespace DistinguishedName

open Subject

theorem push_ofAttribute_known {s : Subject} {a : Attribute} (known : a ∈ s.kinds)
    (value : String) :
    push ⟨s.nameParts⟩ (.ofAttribute a value) =
      ⟨nameParts ⟨s.attributes.map fun old => if old.1 = a then (a, value) else old⟩⟩ := by
  have there : s.nameParts.any (·.oid = (NamePart.ofAttribute a value).oid) = true := by
    obtain ⟨old, member, rfl⟩ := List.mem_map.1 known
    refine List.any_eq_true.2 ⟨.ofAttribute old.1 old.2, ?_, by simp [NamePart.ofAttribute]⟩
    exact List.mem_map_of_mem member
  unfold push
  dsimp only
  rw [if_pos there, mk.injEq]
  simp only [nameParts, List.map_map]
  refine List.map_congr_left fun old _ => ?_
  by_cases same : old.1 = a
  · simp [same, NamePart.ofAttribute]
  · have apart : old.1.oid ≠ a.oid := fun h => same (Attribute.oid_injective h)
    simp [same, apart, NamePart.ofAttribute]

theorem push_ofAttribute_fresh {s : Subject} {a : Attribute} (fresh : a ∉ s.kinds)
    (value : String) :
    push ⟨s.nameParts⟩ (.ofAttribute a value) = ⟨nameParts ⟨s.attributes ++ [(a, value)]⟩⟩ := by
  have absent : s.nameParts.any (·.oid = (NamePart.ofAttribute a value).oid) = false := by
    rw [List.any_eq_false]
    intro part member same
    obtain ⟨old, listed, rfl⟩ := List.mem_map.1 member
    have kind : old.1 = a := Attribute.oid_injective (of_decide_eq_true same)
    exact fresh (kind ▸ List.mem_map_of_mem listed)
  unfold push
  dsimp only
  rw [if_neg (by simp [absent]), nameParts, nameParts, List.map_append, List.map_singleton]

/-- A name keeps of a subject what is left once its repeated attributes are merged. -/
theorem ofSubject_merged (s : Subject) : ofSubject s = ⟨s.merged.nameParts⟩ := by
  obtain ⟨attributes⟩ := s
  induction attributes using List.reverseRecOn with
  | nil => rfl
  | append_singleton attributes last ih =>
    obtain ⟨a, value⟩ := last
    have step : ofSubject ⟨attributes ++ [(a, value)]⟩ =
        (ofSubject ⟨attributes⟩).push (.ofAttribute a value) := by
      simp only [ofSubject, ofParts, List.map_append, List.map_singleton, List.foldl_append,
        List.foldl_cons, List.foldl_nil]
    rw [step, ih]
    by_cases known : a ∈ kinds ⟨attributes⟩
    · have kept : a ∈ (merged ⟨attributes⟩).kinds := by
        rw [kinds_merged]
        exact List.mem_eraseDups.2 known
      rw [push_ofAttribute_known kept, ← merged_concat_known known]
    · have lost : a ∉ (merged ⟨attributes⟩).kinds := by
        rw [kinds_merged]
        exact fun member => known (List.mem_eraseDups.1 member)
      rw [push_ofAttribute_fresh lost, ← merged_concat_fresh known]

/-- The second organization stands where the first one stood. -/
example : ofSubject ⟨[(.organization, "a"), (.commonName, "x"), (.organization, "b")]⟩ =
    ofSubject ⟨[(.organization, "b"), (.commonName, "x")]⟩ := by
  decide +kernel

end DistinguishedName

namespace Subject

variable {s : Subject}

theorem merged_of_nodup (h : s.kinds.Nodup) : s.merged = s := by
  obtain ⟨attributes⟩ := s
  rw [Subject.mk.injEq]
  induction attributes using List.reverseRecOn with
  | nil => rfl
  | append_singleton attributes last ih =>
    obtain ⟨a, value⟩ := last
    rw [kinds_concat] at h
    obtain ⟨front, _, apart⟩ := List.nodup_append.1 h
    have fresh : a ∉ kinds ⟨attributes⟩ := fun member => apart a member a (by simp) rfl
    rw [merged_concat_fresh fresh, ih front]

theorem merged_merged (s : Subject) : s.merged.merged = s.merged :=
  merged_of_nodup s.nodup_kinds_merged

theorem kinds_eq_of_nameParts {t : Subject} (h : s.nameParts = t.nameParts) :
    s.kinds = t.kinds := by
  have oids (s : Subject) : s.nameParts.map (·.oid) = s.kinds.map Attribute.oid := by
    simp only [nameParts, kinds, List.map_map]
    rfl
  have same : s.kinds.map Attribute.oid = t.kinds.map Attribute.oid := by rw [← oids, ← oids, h]
  exact List.map_injective_iff.2 (fun _ _ => Attribute.oid_injective) same

theorem mem_of_latest {a : Attribute} (known : a ∈ s.kinds) : (a, s.latest a) ∈ s.attributes := by
  obtain ⟨attributes⟩ := s
  induction attributes using List.reverseRecOn with
  | nil => cases known
  | append_singleton attributes last ih =>
    obtain ⟨b, value⟩ := last
    rw [latest_concat]
    by_cases same : a = b
    · simp [same]
    · rw [kinds_concat] at known
      have before : a ∈ kinds ⟨attributes⟩ := by simpa [same] using known
      rw [if_neg same]
      exact List.mem_append_left _ (ih before)

theorem merged_subperm (s : Subject) : s.merged.attributes.Subperm s.attributes := by
  refine List.subperm_of_subset (List.Nodup.of_map _ s.nodup_kinds_merged) fun a member => ?_
  obtain ⟨kind, known, rfl⟩ := List.mem_map.1 member
  exact mem_of_latest (List.mem_eraseDups.1 known)

theorem printed_pos (a : Attribute × String) : 0 < (printAttribute a).length := by
  rw [printAttribute, List.cons_append]
  exact Nat.succ_pos _

theorem eq_of_printed_le {some all : List (Attribute × String)} (sub : some.Sublist all)
    (long : (all.flatMap printAttribute).length ≤ (some.flatMap printAttribute).length) :
    some = all := by
  induction sub with
  | slnil => rfl
  | cons a sub ih =>
    rename_i some all
    have more := printed_pos a
    have fewer := (sub.flatMap printAttribute).length_le
    rw [List.flatMap_cons, List.length_append] at long
    omega
  | cons_cons a sub ih =>
    rw [List.flatMap_cons, List.flatMap_cons, List.length_append, List.length_append] at long
    rw [ih (by omega)]

theorem print_merged_iff : s.print = s.merged.print ↔ s.kinds.Nodup := by
  constructor
  · intro h
    obtain ⟨kept, order, sub⟩ := s.merged_subperm
    have printed := congrArg (fun text : String => text.toList.length) h
    simp only [print, String.toList_ofList] at printed
    have same := (order.flatMap_right printAttribute).length_eq
    have all := eq_of_printed_le sub (by omega)
    subst all
    exact (order.map Prod.fst).nodup_iff.2 s.nodup_kinds_merged
  · intro h
    rw [merged_of_nodup h]

theorem parts_ofSubject_iff :
    (DistinguishedName.ofSubject s).parts = s.nameParts ↔ s.kinds.Nodup := by
  rw [DistinguishedName.ofSubject_merged]
  constructor
  · intro h
    rw [← kinds_eq_of_nameParts h]
    exact s.nodup_kinds_merged
  · intro h
    rw [merged_of_nodup h]

end Subject

theorem DistinguishedName.ofSubject_eq_of_merged (s : Subject) :
    ofSubject s.merged = ofSubject s := by
  rw [ofSubject_merged, ofSubject_merged, Subject.merged_merged]

namespace Signer

/-- In certificates and requests that are made in the process, a subject that repeats an attribute
    is cut down to its merged form, while each command line has all of the subject. -/
theorem inProcess_merges {κ : Type} (keys : KeyScheme κ) (s : Subject) :
    (∀ key serial window,
      (CertificateBody.authority s key serial window).subject.parts = s.merged.nameParts ∧
      (CertificateBody.authority s key serial window).issuer.parts = s.merged.nameParts) ∧
    ((DistinguishedName.ofSubject s).parts = s.nameParts ↔ s.kinds.Nodup) ∧
    (∀ now program key passphrase days config out,
      inProcessWith keys now (.selfSign key passphrase s days config out) =
        inProcessWith keys now (.selfSign key passphrase s.merged days config out) ∧
      (Command.ofCall program (.selfSign key passphrase s days config out) =
        Command.ofCall program (.selfSign key passphrase s.merged days config out) ↔
          s.kinds.Nodup)) ∧
    (∀ now program key config out,
      inProcessWith keys now (.request key s config out) =
        inProcessWith keys now (.request key s.merged config out) ∧
      (Command.ofCall program (.request key s config out) =
        Command.ofCall program (.request key s.merged config out) ↔ s.kinds.Nodup)) := by
  have name := DistinguishedName.ofSubject_eq_of_merged s
  have parts : (DistinguishedName.ofSubject s).parts = s.merged.nameParts := by
    rw [DistinguishedName.ofSubject_merged]
  refine ⟨fun _ _ _ => ⟨parts, parts⟩, s.parts_ofSubject_iff, ?_, ?_⟩
  · intro now program key passphrase days config out
    constructor
    · have body pair serial : CertificateBody.authority s pair serial =
          CertificateBody.authority s.merged pair serial := by
        funext window
        simp only [CertificateBody.authority, name]
      simp only [inProcessWith, InProcess.perform, InProcess.selfSign, body]
    · rw [← Subject.print_merged_iff]
      simp [Command.ofCall, Command.argumentsOf, Command.selfSignArguments, Command.passphraseOf]
  · intro now program key config out
    constructor
    · have signed pair once : SigningRequest.sign s keys pair once =
          SigningRequest.sign s.merged keys pair once := by
        simp only [SigningRequest.sign, SigningRequest.body, name]
      simp only [inProcessWith, InProcess.perform, InProcess.createRequest, signed]
    · rw [← Subject.print_merged_iff]
      simp [Command.ofCall, Command.argumentsOf, Command.requestArguments, Command.passphraseOf]

end Signer

end NetworkCa
