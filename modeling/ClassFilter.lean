import ClassFilter.Blob
import ClassFilter.Builder
import ClassFilter.Chain.Decision
import ClassFilter.Source
import ClassFilter.Proofs.Text.Decimal
import ClassFilter.Proofs.Draft.Slots
import ClassFilter.Proofs.Element.Grammar
import ClassFilter.Proofs.Text.Separated
import ClassFilter.Proofs.Chain.Compiled
import ClassFilter.Proofs.Chain.Text
import ClassFilter.Proofs.Chain.Decision
import ClassFilter.Proofs.Element.Reading
import ClassFilter.Proofs.Chain.Reading
import ClassFilter.Proofs.Text.Utf8
import ClassFilter.Proofs.Wire.RoundTrip
import ClassFilter.Proofs.Payload.RoundTrip
import ClassFilter.Proofs.Payload.Sound
import ClassFilter.Proofs.Blob.Header
import ClassFilter.Proofs.Payload.Spelling
import ClassFilter.Proofs.Blob.RoundTrip
import ClassFilter.Proofs.Blob.Language
import ClassFilter.Proofs.Chain.Image
import ClassFilter.Proofs.Wire.Shortest
import ClassFilter.Proofs.Payload.Shortest
import ClassFilter.Proofs.Blob.Reload
import ClassFilter.Proofs.Element.Production
import ClassFilter.Proofs.Chain.Single
import ClassFilter.Proofs.Element.Refusal
import ClassFilter.Proofs.Chain.Refusal
import ClassFilter.Proofs.Text.Literal
import ClassFilter.Proofs.Status
import ClassFilter.Proofs.Chain.Growth
import ClassFilter.Proofs.Chain.Concat
import ClassFilter.Proofs.Chain.Edit
import ClassFilter.Proofs.Element.Opinion
import ClassFilter.Proofs.Blob.Damage
import ClassFilter.Proofs.Blob.Freshness
import ClassFilter.Proofs.Chain.Listing
import ClassFilter.Proofs.Chain.Outline
import ClassFilter.Proofs.Blob.Canonical
import ClassFilter.Proofs.Builder.Refusal
import ClassFilter.Proofs.Payload.Blame
import ClassFilter.Proofs.Blob.Verdict
import ClassFilter.Proofs.Blob.Stages
import ClassFilter.Proofs.Payload.Delimited
import ClassFilter.Proofs.Blob.Truncated
import ClassFilter.Proofs.Builder.Limits
import ClassFilter.Proofs.Chain.Evidence
import ClassFilter.Proofs.Rule.Package
import ClassFilter.Proofs.Chain.Loop
