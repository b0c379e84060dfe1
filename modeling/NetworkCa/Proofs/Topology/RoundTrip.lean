import NetworkCa.Proofs.Json.Written
import NetworkCa.Proofs.Topology.Entries

namespace NetworkCa

open Json Json.Reader

namespace Identity

def value (i : Identity) : Value :=
  .object [(some "role", .text (some i.role.tag)), (some "dir", .text (some i.dir.text)),
    (some "name", .text (some i.name)), (some "ca_link", .text (some i.caLink))]

theorem written_json (i : Identity) : Written (.value i.value) i.json := by
  let text (key s : String) : String × Value × List Char := (key, .text (some s), quoted s)
  have each : ∀ member ∈ [text "role" i.role.tag, text "dir" i.dir.text, text "name" i.name,
      text "ca_link" i.caLink], Written (.value member.2.1) member.2.2 := by
    simp only [List.forall_mem_cons]
    exact ⟨written_quoted _, written_quoted _, written_quoted _, written_quoted _, nofun⟩
  exact written_object each

theorem ofValue?_value (i : Identity) : ofValue? i.value = some i := by
  have role : role? (.text (some i.role.tag)) = some i.role := Role.ofTag?_tag i.role
  have dir : dir? (.text (some i.dir.text)) = some i.dir := rfl
  simp [value, ofValue?, Members.step, Members.put, role, dir, once?, Value.nullable?,
    Members.identity?, make]

theorem reads_json (i : Identity) (rest : List Char) : Reads reader (i.json ++ rest) i rest := by
  have answers := answers_reader i.written_json blank_nil rest
  rwa [ofValue?_value] at answers

theorem solid_json (i : Identity) : Solid i.json := i.written_json.start

end Identity

namespace Topology

/-- Whatever texts the identities of a topology hold, reading what was written gives them back in
their order, none of them changed. -/
theorem parse_json (t : Topology) : parse t.json = .ok t := by
  have each : ∀ i ∈ t.identities, ∀ rest, Reads Identity.reader (i.json ++ rest) i rest :=
    fun i _ => Identity.reads_json i
  have solid : ∀ i ∈ t.identities, Solid i.json := fun i _ => i.solid_json
  have whole : Reads (list Identity.reader) t.json.toList t.identities [] := by
    have listed := reads_list each solid []
    rw [List.append_nil] at listed
    rwa [json, String.toList_ofList]
  rw [parse, run_of_reads whole]

end Topology

end NetworkCa
