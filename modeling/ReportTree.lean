import ReportTree.Ansi.Sequence
import ReportTree.Ansi.Style
import ReportTree.CommandLine.Answer
import ReportTree.CommandLine.Choice
import ReportTree.CommandLine.Command
import ReportTree.CommandLine.Input
import ReportTree.CommandLine.Preference
import ReportTree.CommandLine.Program
import ReportTree.CommandLine.Request
import ReportTree.CommandLine.Switch
import ReportTree.Console
import ReportTree.Disk.Basic
import ReportTree.Disk.Path
import ReportTree.Disk.Tree
import ReportTree.Failure.Basic
import ReportTree.Failure.Graph
import ReportTree.Failure.Kind
import ReportTree.Forest.Basic
import ReportTree.Forest.Import
import ReportTree.Forest.Merge
import ReportTree.Forest.Move
import ReportTree.Forest.Outline
import ReportTree.Forest.Path
import ReportTree.Forest.Severity
import ReportTree.Forest.View
import ReportTree.Json.Basic
import ReportTree.Json.Reader
import ReportTree.Json.Token
import ReportTree.Json.Writer
import ReportTree.Level
import ReportTree.Log
import ReportTree.Main
import ReportTree.Markup.Line
import ReportTree.Number.Binary64
import ReportTree.Number.Shortest
import ReportTree.Report.Basic
import ReportTree.Report.Build
import ReportTree.Report.Codec
import ReportTree.Report.Document
import ReportTree.Report.Message
import ReportTree.Report.Outline
import ReportTree.Settings.Basic
import ReportTree.Settings.Loading
import ReportTree.Settings.Lookup
import ReportTree.Settings.Override
import ReportTree.Text.Basic
import ReportTree.Text.Blank
import ReportTree.Text.Digit
import ReportTree.Text.LetterCase
import ReportTree.Text.Lines
import ReportTree.Text.Numeral
import ReportTree.Text.Printable
import ReportTree.Text.Quoted
import ReportTree.Text.Utf8
import ReportTree.Toml.Blank
import ReportTree.Toml.Document
import ReportTree.Toml.Entries
import ReportTree.Toml.Fault
import ReportTree.Toml.Joining
import ReportTree.Toml.Key
import ReportTree.Toml.Moment
import ReportTree.Toml.Number
import ReportTree.Toml.Quoted
import ReportTree.Toml.Reader
import ReportTree.Toml.Statement
import ReportTree.Toml.Timestamp
import ReportTree.Toml.Value
import ReportTree.Tree
import ReportTree.Wire.Field
import ReportTree.Wire.Payload
import ReportTree.Wire.Reader
import ReportTree.Proofs.Json.RoundTrip
import ReportTree.Proofs.Wire.Grammar
import ReportTree.Proofs.CommandLine.Check
import ReportTree.Proofs.CommandLine.Decoding
import ReportTree.Proofs.Report.Acceptance
import ReportTree.Proofs.Forest.Exact
import ReportTree.Proofs.Forest.Folding
import ReportTree.Proofs.Forest.Demanded
import ReportTree.Proofs.Forest.Ownership
import ReportTree.Proofs.Forest.Spine
import ReportTree.Proofs.Report.FromOutline
import ReportTree.Proofs.Failure.Walk
import ReportTree.Proofs.Failure.Cleaning
import ReportTree.Proofs.Forest.Import
import ReportTree.Proofs.Forest.Cleaned
import ReportTree.Proofs.Forest.Rising
import ReportTree.Proofs.Forest.Insertion
import ReportTree.Proofs.Forest.Merging
import ReportTree.Proofs.Report.FromPaths
import ReportTree.Proofs.Forest.Grounded
import ReportTree.Proofs.CommandLine.OutlineCheck
import ReportTree.Proofs.Tree.Folded
import ReportTree.Proofs.Forest.Folded
import ReportTree.Proofs.Forest.Laid
import ReportTree.Proofs.Report.PathOrder
import ReportTree.Proofs.Settings.Layering
import ReportTree.Proofs.Ansi.Stripping
import ReportTree.Proofs.Ansi.Painting
import ReportTree.Proofs.Report.Coloring
import ReportTree.Proofs.Forest.Refusal
import ReportTree.Proofs.Forest.Monotone
import ReportTree.Proofs.Settings.Unreadable
import ReportTree.Proofs.Json.Legible
import ReportTree.Proofs.Json.LineBreak
import ReportTree.Proofs.CommandLine.Display
import ReportTree.Proofs.Markup.Grammar
import ReportTree.Proofs.Forest.Revisit
import ReportTree.Proofs.Report.SiblingOrder
import ReportTree.Proofs.Report.PathlessLines
import ReportTree.Proofs.Forest.Lineage
import ReportTree.Proofs.Forest.RightEdge
import ReportTree.Proofs.Forest.Collapsed
import ReportTree.Proofs.Forest.Filing
import ReportTree.Proofs.Report.Filtering
import ReportTree.Proofs.Failure.Stopping
import ReportTree.Proofs.Report.LineBreak
import ReportTree.Proofs.CommandLine.Reading
