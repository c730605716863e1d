import Ragged.Build
import Ragged.Config
import Ragged.Document.Json
import Ragged.Document.Settings
import Ragged.Document.Table
import Ragged.Entries
import Ragged.Error
import Ragged.Layout.Basic
import Ragged.Layout.Read
import Ragged.Layout.Write
import Ragged.Leaf.Convert
import Ragged.Leaf.Text
import Ragged.Number.Binary
import Ragged.Number.Decimal
import Ragged.Proofs.Build.Precheck
import Ragged.Proofs.Build.RoundTrip
import Ragged.Proofs.Layout.Acceptance
import Ragged.Proofs.Layout.Allocation
import Ragged.Proofs.Layout.Arrays
import Ragged.Proofs.Layout.Blocks
import Ragged.Proofs.Layout.Passes
import Ragged.Proofs.Layout.Reading
import Ragged.Proofs.Layout.Writing
import Ragged.Proofs.Leaf.Stored
import Ragged.Proofs.Number.Integers
import Ragged.Proofs.Shape.Covering
import Ragged.Proofs.Shape.Inference
import Ragged.Proofs.Shape.Survey
import Ragged.Proofs.Storage.Columns
import Ragged.Proofs.Storage.Regions
import Ragged.Proofs.Text.Codec
import Ragged.Proofs.Type.Coercion
import Ragged.Proofs.Type.Conformance
import Ragged.Proofs.Type.Structure
import Ragged.Proofs.Value.Drained
import Ragged.Proofs.Value.Elements
import Ragged.Shape.Basic
import Ragged.Shape.Resolve
import Ragged.Shape.Survey
import Ragged.Storage.Arena
import Ragged.Storage.Column
import Ragged.Storage.Element
import Ragged.Text.Invisible
import Ragged.Text.Position
import Ragged.Text.Quoted
import Ragged.Text.Units
import Ragged.Type.Basic
import Ragged.Type.Error
import Ragged.Type.Json
import Ragged.Type.Parser
import Ragged.Type.Printer
import Ragged.Type.Token
import Ragged.Value.Basic
import Ragged.Value.Json
import Ragged.Value.Pull
import Ragged.Value.Record
import Ragged.Value.Supply
import Ragged.Proofs.Build.Safety
import Ragged.Proofs.Layout.Numbering
import Ragged.Proofs.Layout.Filling
import Ragged.Proofs.Value.Listed
import Ragged.Proofs.Shape.Containers
import Ragged.Proofs.Build.Containers
import Ragged.Proofs.Build.Uniform
import Ragged.Proofs.Build.Transparency
import Ragged.Proofs.Type.Grammar
import Ragged.Proofs.Type.Reading
import Ragged.Proofs.Type.Accepting
import Ragged.Proofs.Type.Printing
import Ragged.Proofs.Number.Overflow
import Ragged.Proofs.Number.Narrowing
import Ragged.Proofs.Leaf.Lossless
import Ragged.Proofs.Storage.Plain
import Ragged.Proofs.Storage.Refinement
import Ragged.Proofs.Storage.Behaviour
import Ragged.Proofs.Storage.Refusals
import Ragged.Proofs.Build.Projection
import Ragged.Proofs.Number.Widening
import Ragged.Proofs.Leaf.Restored
import Ragged.Proofs.Type.Stability
import Ragged.Proofs.Build.Rebuilding
import Ragged.Proofs.Storage.Growth
import Ragged.Proofs.Layout.Growth
import Ragged.Proofs.Build.Growth
import Ragged.Proofs.Value.Contained
import Ragged.Proofs.Value.Reordered
import Ragged.Proofs.Build.Reordering
import Ragged.Proofs.Build.Draining
import Ragged.Proofs.Build.Reinferring
import Ragged.Proofs.Value.Layers
import Ragged.Proofs.Value.Shuffled
import Ragged.Proofs.Shape.Sampling
import Ragged.Proofs.Shape.Summary
import Ragged.Proofs.Shape.Summing
import Ragged.Proofs.Shape.Choosing
import Ragged.Proofs.Build.Sights
import Ragged.Proofs.Build.Naming
import Ragged.Proofs.Value.Sources
import Ragged.Proofs.Shape.Lookahead
import Ragged.Proofs.Value.Sessions
import Ragged.Proofs.Text.WellFormed
import Ragged.Proofs.Leaf.FixedWidth
import Ragged.Proofs.Leaf.Words
import Ragged.Proofs.Number.Values
import Ragged.Proofs.Leaf.Exact
import Ragged.Proofs.Build.Extents
import Ragged.Proofs.Value.Records
import Ragged.Proofs.Type.Documents
import Ragged.Proofs.Build.Origins
import Ragged.Proofs.Type.Scanning
import Ragged.Proofs.Layout.Mirroring
import Ragged.Proofs.Storage.Pushing
import Ragged.Proofs.Storage.Reallocations
import Ragged.Proofs.Text.Lines
import Ragged.Proofs.Type.Complaints
import Ragged.Proofs.Type.Pointing
