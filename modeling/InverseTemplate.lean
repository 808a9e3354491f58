import InverseTemplate.Anchor.Basic
import InverseTemplate.Anchor.Match
import InverseTemplate.Anchor.Search
import InverseTemplate.Assist
import InverseTemplate.Capture
import InverseTemplate.CommandLine.Options
import InverseTemplate.CommandLine.Run
import InverseTemplate.CommandLine.Source
import InverseTemplate.Component
import InverseTemplate.Confidence
import InverseTemplate.Difference
import InverseTemplate.Entity.Change
import InverseTemplate.Entity.Component
import InverseTemplate.Entity.Listing
import InverseTemplate.Entity.Render
import InverseTemplate.Entity.Table
import InverseTemplate.Entries
import InverseTemplate.Extraction
import InverseTemplate.Failure
import InverseTemplate.Flow.Reader
import InverseTemplate.Flow.Scalar
import InverseTemplate.Flow.Token
import InverseTemplate.Main
import InverseTemplate.Markdown.CodeSpan
import InverseTemplate.Markdown.Fence
import InverseTemplate.Markdown.Span
import InverseTemplate.Merge
import InverseTemplate.Number.Binary64
import InverseTemplate.Number.Decimal
import InverseTemplate.Number.Numeral
import InverseTemplate.Proofs.Anchor.Gap
import InverseTemplate.Proofs.Anchor.Guards
import InverseTemplate.Proofs.Anchor.Hit
import InverseTemplate.Proofs.Anchor.Leftmost
import InverseTemplate.Proofs.Anchor.Legible
import InverseTemplate.Proofs.Anchor.Literal
import InverseTemplate.Proofs.Anchor.Taken
import InverseTemplate.Proofs.Anchor.Words
import InverseTemplate.Proofs.Assist
import InverseTemplate.Proofs.Capture.Complete
import InverseTemplate.Proofs.Capture.Faithful
import InverseTemplate.Proofs.Capture.Fenced
import InverseTemplate.Proofs.Capture.Missing
import InverseTemplate.Proofs.Capture.Step
import InverseTemplate.Proofs.Capture.Tiling
import InverseTemplate.Proofs.CommandLine.Outcome
import InverseTemplate.Proofs.Completeness
import InverseTemplate.Proofs.Confidence
import InverseTemplate.Proofs.Convergence
import InverseTemplate.Proofs.Difference.Disjoint
import InverseTemplate.Proofs.Difference.Empty
import InverseTemplate.Proofs.Difference.Places
import InverseTemplate.Proofs.Difference.Replay
import InverseTemplate.Proofs.Difference.Report
import InverseTemplate.Proofs.Difference.Restricted
import InverseTemplate.Proofs.Difference.Written
import InverseTemplate.Proofs.Editing
import InverseTemplate.Proofs.Entity.Changes
import InverseTemplate.Proofs.Entity.Item
import InverseTemplate.Proofs.Entity.Listing
import InverseTemplate.Proofs.Entity.Read
import InverseTemplate.Proofs.Entity.RoundTrip
import InverseTemplate.Proofs.Entity.Stable
import InverseTemplate.Proofs.Entity.Table
import InverseTemplate.Proofs.Entries
import InverseTemplate.Proofs.Extraction.Cleared
import InverseTemplate.Proofs.Extraction.Groups
import InverseTemplate.Proofs.Extraction.Lasting
import InverseTemplate.Proofs.Extraction.Plain
import InverseTemplate.Proofs.Extraction.RoundTrip
import InverseTemplate.Proofs.Extraction.Total
import InverseTemplate.Proofs.Extraction.WellFormed
import InverseTemplate.Proofs.Markdown.Automaton
import InverseTemplate.Proofs.Markdown.Fence
import InverseTemplate.Proofs.Markdown.LineEnds
import InverseTemplate.Proofs.Markdown.Opening
import InverseTemplate.Proofs.Markdown.Order
import InverseTemplate.Proofs.Markdown.Regions
import InverseTemplate.Proofs.Markdown.Search
import InverseTemplate.Proofs.Merge.Associative
import InverseTemplate.Proofs.Merge.Commuting
import InverseTemplate.Proofs.Merge.Overwritten
import InverseTemplate.Proofs.Merge.Pathwise
import InverseTemplate.Proofs.Merge.Places
import InverseTemplate.Proofs.Merge.Plain
import InverseTemplate.Proofs.Merge.Protected
import InverseTemplate.Proofs.Merge.Settled
import InverseTemplate.Proofs.Merge.Silent
import InverseTemplate.Proofs.Merge.Written
import InverseTemplate.Proofs.Sync
import InverseTemplate.Proofs.Template.Braces
import InverseTemplate.Proofs.Template.Closing
import InverseTemplate.Proofs.Template.CodeSpans
import InverseTemplate.Proofs.Template.Comments
import InverseTemplate.Proofs.Template.Excerpt
import InverseTemplate.Proofs.Template.Extent
import InverseTemplate.Proofs.Template.Isolated
import InverseTemplate.Proofs.Template.Nesting
import InverseTemplate.Proofs.Template.Origin
import InverseTemplate.Proofs.Template.Partition
import InverseTemplate.Proofs.Template.Paths
import InverseTemplate.Proofs.Template.Spelling
import InverseTemplate.Proofs.Text.PlainBlanks
import InverseTemplate.Proofs.Text.Split
import InverseTemplate.Proofs.Text.Strip
import InverseTemplate.Proofs.Text.WordRow
import InverseTemplate.Proofs.Validation
import InverseTemplate.Proofs.Value.Equal
import InverseTemplate.Proofs.Value.Equivalence
import InverseTemplate.Proofs.Value.Lens
import InverseTemplate.Proofs.Value.Nested
import InverseTemplate.Proofs.Value.Rebuilt
import InverseTemplate.Proofs.Value.Written
import InverseTemplate.Props
import InverseTemplate.Settings
import InverseTemplate.Template.Block
import InverseTemplate.Template.Slot
import InverseTemplate.Template.Split
import InverseTemplate.Template.Tag
import InverseTemplate.Text.Basic
import InverseTemplate.Text.Blank
import InverseTemplate.Text.Cursor
import InverseTemplate.Text.LowerCase
import InverseTemplate.Text.Printable
import InverseTemplate.Text.WordChar
import InverseTemplate.Trace
import InverseTemplate.Validation
import InverseTemplate.Value.Basic
import InverseTemplate.Value.Equality
import InverseTemplate.Value.Json
import InverseTemplate.Value.Key
import InverseTemplate.Value.Path
import InverseTemplate.Value.Printed
import InverseTemplate.Value.Reader
