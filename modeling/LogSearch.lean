import LogSearch.Cache.Fetch
import LogSearch.Cache.Identity
import LogSearch.Cache.Store
import LogSearch.Config
import LogSearch.Dict
import LogSearch.Engine.Basic
import LogSearch.Engine.Fault
import LogSearch.Engine.Reading
import LogSearch.Engine.Task
import LogSearch.Engine.Update
import LogSearch.Field
import LogSearch.Field.Order
import LogSearch.Field.Wire
import LogSearch.Hash.Sha256
import LogSearch.Json.Decode
import LogSearch.Json.Reader
import LogSearch.Json.Value
import LogSearch.Json.Writer
import LogSearch.Main
import LogSearch.Number.Binary64
import LogSearch.Number.Double
import LogSearch.Number.Machine
import LogSearch.Number.Read
import LogSearch.Number.Shortest
import LogSearch.Number.Text
import LogSearch.Pipeline.Aggregation
import LogSearch.Pipeline.Draft
import LogSearch.Pipeline.Evaluation
import LogSearch.Pipeline.Fault
import LogSearch.Pipeline.Run
import LogSearch.Pipeline.TimeChart
import LogSearch.Proofs.Cache.Keys
import LogSearch.Proofs.Cache.Progress
import LogSearch.Proofs.Cache.References
import LogSearch.Proofs.Engine.Coherence
import LogSearch.Proofs.Engine.Confluence
import LogSearch.Proofs.Engine.Emission
import LogSearch.Proofs.Engine.Events
import LogSearch.Proofs.Engine.Holding
import LogSearch.Proofs.Engine.Isolation
import LogSearch.Proofs.Engine.LifeCycle
import LogSearch.Proofs.Engine.Reads
import LogSearch.Proofs.Engine.Refusal
import LogSearch.Proofs.Engine.Rest
import LogSearch.Proofs.Engine.Selection
import LogSearch.Proofs.Engine.Tracking
import LogSearch.Proofs.Engine.Transparency
import LogSearch.Proofs.Engine.Waking
import LogSearch.Proofs.Failing
import LogSearch.Proofs.Field.Order
import LogSearch.Proofs.Json.Compact
import LogSearch.Proofs.Json.Doubles
import LogSearch.Proofs.Json.Numbers
import LogSearch.Proofs.Json.Rereading
import LogSearch.Proofs.Json.Roundtrip
import LogSearch.Proofs.Number.Comparison
import LogSearch.Proofs.Number.Digits
import LogSearch.Proofs.Number.Double
import LogSearch.Proofs.Number.Packing
import LogSearch.Proofs.Number.Reading
import LogSearch.Proofs.Number.Rounding
import LogSearch.Proofs.Number.Scientific
import LogSearch.Proofs.Number.Shortest
import LogSearch.Proofs.Number.TotalOrder
import LogSearch.Proofs.Partition
import LogSearch.Proofs.Pipeline.Arithmetic
import LogSearch.Proofs.Pipeline.BreakingOff
import LogSearch.Proofs.Pipeline.Buckets
import LogSearch.Proofs.Pipeline.ChartPlans
import LogSearch.Proofs.Pipeline.Columns
import LogSearch.Proofs.Pipeline.Drafts
import LogSearch.Proofs.Pipeline.Extremes
import LogSearch.Proofs.Pipeline.Filtering
import LogSearch.Proofs.Pipeline.Frame
import LogSearch.Proofs.Pipeline.GroupRows
import LogSearch.Proofs.Pipeline.Groups
import LogSearch.Proofs.Pipeline.Misfits
import LogSearch.Proofs.Pipeline.NonNumeric
import LogSearch.Proofs.Pipeline.Regrouping
import LogSearch.Proofs.Pipeline.RowOrder
import LogSearch.Proofs.Pipeline.Series
import LogSearch.Proofs.Pipeline.TopGroups
import LogSearch.Proofs.Query.Acceptance
import LogSearch.Proofs.Query.Agreement
import LogSearch.Proofs.Query.Canonical
import LogSearch.Proofs.Query.Classification
import LogSearch.Proofs.Query.Comments
import LogSearch.Proofs.Query.Completing
import LogSearch.Proofs.Query.Derivation
import LogSearch.Proofs.Query.Expression
import LogSearch.Proofs.Query.Finite
import LogSearch.Proofs.Query.Gaps
import LogSearch.Proofs.Query.Grammar
import LogSearch.Proofs.Query.Head
import LogSearch.Proofs.Query.Highlights
import LogSearch.Proofs.Query.Layout
import LogSearch.Proofs.Query.Leaves
import LogSearch.Proofs.Query.Legibility
import LogSearch.Proofs.Query.Lexemes
import LogSearch.Proofs.Query.Lockstep
import LogSearch.Proofs.Query.Lookahead
import LogSearch.Proofs.Query.Loss
import LogSearch.Proofs.Query.Marking
import LogSearch.Proofs.Query.Numeral
import LogSearch.Proofs.Query.Onward
import LogSearch.Proofs.Query.Printing
import LogSearch.Proofs.Query.Quoting
import LogSearch.Proofs.Query.Reach
import LogSearch.Proofs.Query.Reading
import LogSearch.Proofs.Query.Recovery
import LogSearch.Proofs.Query.Relocation
import LogSearch.Proofs.Query.Restart
import LogSearch.Proofs.Query.RoundTrip
import LogSearch.Proofs.Query.Spelling
import LogSearch.Proofs.Query.Stage
import LogSearch.Proofs.Query.Steps
import LogSearch.Proofs.Query.Tiling
import LogSearch.Proofs.Query.Walks
import LogSearch.Proofs.Query.WellFormed
import LogSearch.Proofs.Record.Merging
import LogSearch.Proofs.Record.Queue
import LogSearch.Proofs.Record.Transfer
import LogSearch.Proofs.Sorting
import LogSearch.Proofs.Source.Batches
import LogSearch.Proofs.Source.Changes
import LogSearch.Proofs.Source.Registry
import LogSearch.Proofs.Text.Joining
import LogSearch.Proofs.Time.Counting
import LogSearch.Proofs.Time.Duration
import LogSearch.Proofs.Time.Range
import LogSearch.Proofs.View.Csv
import LogSearch.Proofs.View.Histogram
import LogSearch.Proofs.View.Page
import LogSearch.Proofs.View.TimeIndex
import LogSearch.Query.Completion
import LogSearch.Query.Lexer
import LogSearch.Query.Marks
import LogSearch.Query.MarksWire
import LogSearch.Query.Parser
import LogSearch.Query.Problem
import LogSearch.Query.Text
import LogSearch.Query.Token
import LogSearch.Query.Tree
import LogSearch.Query.Wire
import LogSearch.Record
import LogSearch.Regex.CategoryTable
import LogSearch.Regex.CodeSet
import LogSearch.Regex.FoldingTable
import LogSearch.Regex.Library
import LogSearch.Regex.Parser
import LogSearch.Regex.Pattern
import LogSearch.Regex.Program
import LogSearch.Results
import LogSearch.Shell.Arguments
import LogSearch.Shell.Failure
import LogSearch.Shell.Report
import LogSearch.Shell.Run
import LogSearch.Source.Basic
import LogSearch.Source.Batches
import LogSearch.Source.Entry
import LogSearch.Source.Files
import LogSearch.Source.LineFile
import LogSearch.Source.Memory
import LogSearch.Source.Plugin
import LogSearch.Source.Registry
import LogSearch.Source.Selection
import LogSearch.Text.Blank
import LogSearch.Text.Bytes
import LogSearch.Text.Case
import LogSearch.Text.CaseTable
import LogSearch.Text.Search
import LogSearch.Text.Utf8
import LogSearch.Text.Width
import LogSearch.Text.WidthTable
import LogSearch.Time.Instant
import LogSearch.Time.Range
import LogSearch.Toml.Document
import LogSearch.Toml.Reader
import LogSearch.Toml.Value
import LogSearch.View.Export
import LogSearch.View.Grid
import LogSearch.View.Histogram
import LogSearch.View.Page
import LogSearch.View.TimeIndex
