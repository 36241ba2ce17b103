import UriTemplate.Main
import UriTemplate.Cursor
import UriTemplate.Session
import UriTemplate.Template.Descent
import UriTemplate.Proofs.Grammar
import UriTemplate.Proofs.Splitting
import UriTemplate.Proofs.Unambiguous
import UriTemplate.Proofs.Reading
import UriTemplate.Proofs.Acceptance
import UriTemplate.Proofs.Numerals
import UriTemplate.Proofs.Canonical
import UriTemplate.Proofs.Leaves
import UriTemplate.Proofs.Actions
import UriTemplate.Proofs.Units
import UriTemplate.Proofs.Specification
import UriTemplate.Proofs.Decoding
import UriTemplate.Proofs.Structure
import UriTemplate.Proofs.Encoding
import UriTemplate.Proofs.Tiling
import UriTemplate.Proofs.Shifting
import UriTemplate.Proofs.Stateless
import UriTemplate.Proofs.Concatenation
import UriTemplate.Proofs.LeafOrigin
import UriTemplate.Proofs.Pieces
import UriTemplate.Proofs.UriText
import UriTemplate.Proofs.Beginnings
import UriTemplate.Proofs.Faults
import UriTemplate.Proofs.Absence
import UriTemplate.Proofs.Calls
import UriTemplate.Proofs.Conversion
import UriTemplate.Proofs.Interruption
import UriTemplate.Proofs.Tables
import UriTemplate.Proofs.CallForms
import UriTemplate.Proofs.Steps
import UriTemplate.Proofs.History
import UriTemplate.Proofs.Bindings
import UriTemplate.Proofs.KeyTexts
import UriTemplate.Proofs.Journals
import UriTemplate.Proofs.Entries
import UriTemplate.Proofs.Loading
import UriTemplate.Proofs.OptionValues
import UriTemplate.Proofs.Data
import UriTemplate.Proofs.YamlScans
import UriTemplate.Proofs.YamlGraphs
import UriTemplate.Proofs.YamlValues
import UriTemplate.Proofs.Failing
import UriTemplate.Proofs.Reports
import UriTemplate.Proofs.Layers
import UriTemplate.Proofs.CodeUnits
import UriTemplate.Proofs.Flattening
import UriTemplate.Proofs.ExplodedPairs
import UriTemplate.Proofs.LimitDigits
import UriTemplate.Proofs.Cuts
import UriTemplate.Proofs.SplitExpressions
import UriTemplate.Proofs.IdleModifiers
import UriTemplate.Proofs.WellFormed
import UriTemplate.Proofs.Recoding
import UriTemplate.Proofs.OneShot
import UriTemplate.Proofs.Chains
import UriTemplate.Proofs.Overrides
import UriTemplate.Proofs.WrittenValues
import UriTemplate.Proofs.Unterminated
import UriTemplate.Proofs.Records
import UriTemplate.Proofs.Walks
import UriTemplate.Proofs.Descents
import UriTemplate.Proofs.Progress
