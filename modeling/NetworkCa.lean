import NetworkCa.Main
import NetworkCa.Signing.Recording
import NetworkCa.Proofs.Path.Segments
import NetworkCa.Proofs.Path.Prefixes
import NetworkCa.Proofs.Path.LinkTarget
import NetworkCa.Proofs.Path.Styles
import NetworkCa.Proofs.Path.Relocation
import NetworkCa.Proofs.Path.Shortest
import NetworkCa.Proofs.Batch.Attempts
import NetworkCa.Proofs.Batch.Outcome
import NetworkCa.Proofs.FileTree.Walk
import NetworkCa.Proofs.FileTree.Ways
import NetworkCa.Proofs.FileTree.Goals
import NetworkCa.Proofs.FileTree.Routes
import NetworkCa.Proofs.FileTree.Changes
import NetworkCa.Proofs.Bundle.Stages
import NetworkCa.Proofs.Pem.Concatenation
import NetworkCa.Proofs.Bundle.Chain
import NetworkCa.Proofs.Bundle.Custody
import NetworkCa.Proofs.Signing.Backends
import NetworkCa.Proofs.FileTree.Absence
import NetworkCa.Proofs.Authority.Stages
import NetworkCa.Proofs.Authority.Succession
import NetworkCa.Proofs.Bundle.Survival
import NetworkCa.Proofs.Batch.Survival
import NetworkCa.Proofs.Batch.Order
import NetworkCa.Proofs.Batch.Rerun
import NetworkCa.Proofs.Subject.Spelling
import NetworkCa.Proofs.Subject.RoundTrip
import NetworkCa.Proofs.Subject.Grammar
import NetworkCa.Proofs.Bundle.Link
import NetworkCa.Proofs.Bundle.Aftermath
import NetworkCa.Proofs.Signing.Serial
import NetworkCa.Proofs.Signing.Counter
import NetworkCa.Proofs.Signing.Numbering
import NetworkCa.Proofs.Json.Written
import NetworkCa.Proofs.Topology.RoundTrip
import NetworkCa.Proofs.Subject.Merging
import NetworkCa.Proofs.Text.Replace
import NetworkCa.Proofs.Subject.Below
import NetworkCa.Proofs.FileTree.Shape
import NetworkCa.Proofs.Signing.Pairing
import NetworkCa.Proofs.Signing.Secrecy
import NetworkCa.Proofs.Signing.Tracing
import NetworkCa.Proofs.Batch.Calls
import NetworkCa.Proofs.FileTree.Confined
import NetworkCa.Proofs.Bundle.Footprint
import NetworkCa.Proofs.Signing.Checks
import NetworkCa.Proofs.Text.Base64
import NetworkCa.Proofs.Pem.RoundTrip
import NetworkCa.Proofs.Text.Split
import NetworkCa.Proofs.Text.Blank
import NetworkCa.Proofs.Extensions.Entries
import NetworkCa.Proofs.Extensions.Meaning
import NetworkCa.Proofs.Path.NormalForm
import NetworkCa.Proofs.Signing.Arguments
import NetworkCa.Proofs.Extensions.Lines
import NetworkCa.Proofs.Extensions.Sections
import NetworkCa.Proofs.Json.Answers
import NetworkCa.Proofs.Json.Texts
import NetworkCa.Proofs.Json.Numbers
import NetworkCa.Proofs.Json.Grammar
import NetworkCa.Proofs.Json.Decoding
import NetworkCa.Proofs.Topology.Entries
import NetworkCa.Proofs.Topology.Spellings
import NetworkCa.Proofs.FileTree.Clearing
import NetworkCa.Proofs.Topology.Rooting
import NetworkCa.Proofs.Calendar
import NetworkCa.Proofs.Der.Reading
import NetworkCa.Proofs.Der.Times
import NetworkCa.Proofs.Certificate.Reading
import NetworkCa.Proofs.Signing.Validity
