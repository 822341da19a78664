import ContentModel.Attribute
import ContentModel.Binary64
import ContentModel.Binary64.Decimal
import ContentModel.Config
import ContentModel.Config.Setting
import ContentModel.Content
import ContentModel.Content.Listing
import ContentModel.Declaration
import ContentModel.Declaration.Arena
import ContentModel.Declaration.Block
import ContentModel.Declaration.Problem
import ContentModel.Declaration.Rules
import ContentModel.Diagnostic
import ContentModel.ElementOrder
import ContentModel.Entries
import ContentModel.ErrorCode
import ContentModel.Failure
import ContentModel.Log
import ContentModel.Mapping
import ContentModel.Mapping.Collector
import ContentModel.Mapping.Error
import ContentModel.Mapping.Format
import ContentModel.Mapping.Rule
import ContentModel.Model
import ContentModel.Proofs.Declaration.Elaboration
import ContentModel.Proofs.Nesting
import ContentModel.Registry
import ContentModel.Text.Quoted
import ContentModel.Text.Unprintable
import ContentModel.Token
import ContentModel.Validation.Order
import ContentModel.Validation.Table
import ContentModel.Validation.Walk
import ContentModel.Value
import ContentModel.Proofs.Declaration.Acceptance
import ContentModel.Proofs.Declaration.Arena
import ContentModel.Proofs.Model
import ContentModel.Proofs.Validation.Report
import ContentModel.Proofs.Validation.Validity
import ContentModel.Proofs.Forest
import ContentModel.Proofs.Validation.Strictness
import ContentModel.Proofs.Validation.Agreement
import ContentModel.Proofs.Validation.Sources
import ContentModel.Proofs.Validation.Accuracy
import ContentModel.Proofs.Validation.Absence
import ContentModel.Proofs.Validation.Runs
import ContentModel.Proofs.Validation.Ordering
import ContentModel.Proofs.Validation.Alternatives
import ContentModel.Proofs.Validation.Flattening
import ContentModel.Proofs.Declaration.Mappings
import ContentModel.Proofs.Mapping.Writing
import ContentModel.Proofs.Mapping.Reading
import ContentModel.Proofs.Mapping.Ties
import ContentModel.Proofs.Mapping.RoundTrip
import ContentModel.Proofs.Mapping.Sections
import ContentModel.Proofs.Mapping.Safety
import ContentModel.Proofs.Mapping.Nulls
import ContentModel.Proofs.Declaration.Calls
import ContentModel.Proofs.Declaration.Refusal
import ContentModel.Proofs.Binary64
import ContentModel.Proofs.Encoding
import ContentModel.Proofs.Registry
import ContentModel.Proofs.Validation.Consumption
import ContentModel.Proofs.Mapping.Lens
import ContentModel.Proofs.Latest
import ContentModel.Proofs.Decoding
import ContentModel.Proofs.Equality
import ContentModel.Proofs.Validation.Presence
import ContentModel.Proofs.Mapping.Collecting
import ContentModel.Proofs.Validation.Table
import ContentModel.Proofs.Validation.Coverage
import ContentModel.Proofs.Validation.Accumulation
import ContentModel.Proofs.Declaration.Groups
