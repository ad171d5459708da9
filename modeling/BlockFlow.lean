import BlockFlow.Calendar
import BlockFlow.Canonical
import BlockFlow.Cli.Command
import BlockFlow.Cli.Help
import BlockFlow.Cli.Job
import BlockFlow.Cli.Run
import BlockFlow.Cli.Words
import BlockFlow.Files
import BlockFlow.Graph.Basic
import BlockFlow.Graph.Document
import BlockFlow.Graph.Form
import BlockFlow.Graph.Parser
import BlockFlow.Graph.Printer
import BlockFlow.Ids
import BlockFlow.Json.Basic
import BlockFlow.Json.Display
import BlockFlow.Json.Printer
import BlockFlow.Json.Reader
import BlockFlow.Linking
import BlockFlow.Log.Entry
import BlockFlow.Log.Format
import BlockFlow.Log.Message
import BlockFlow.Log.Setup
import BlockFlow.Lowering
import BlockFlow.Main
import BlockFlow.Number.Decimal
import BlockFlow.Number.Double
import BlockFlow.Number.Format
import BlockFlow.Operation
import BlockFlow.Output
import BlockFlow.Path
import BlockFlow.Proofs.Canonical.Completeness
import BlockFlow.Proofs.Canonical.Forms
import BlockFlow.Proofs.Canonical.Identifiers
import BlockFlow.Proofs.Canonical.LinkedForms
import BlockFlow.Proofs.Canonical.Soundness
import BlockFlow.Proofs.Canonical.UnlinkedForms
import BlockFlow.Proofs.Compilation
import BlockFlow.Proofs.Graph.Blocks
import BlockFlow.Proofs.Graph.Changes
import BlockFlow.Proofs.Graph.Order
import BlockFlow.Proofs.Json.Faithful
import BlockFlow.Proofs.Json.Reordering
import BlockFlow.Proofs.Json.Scalars
import BlockFlow.Proofs.Json.StableTexts
import BlockFlow.Proofs.Linking.Runs
import BlockFlow.Proofs.Linking.Synchronization
import BlockFlow.Proofs.Linking.Unlinking
import BlockFlow.Proofs.Lowering.Changes
import BlockFlow.Proofs.Lowering.Results
import BlockFlow.Proofs.Lowering.Trees
import BlockFlow.Proofs.Number.Decimals
import BlockFlow.Proofs.Number.Texts
import BlockFlow.Report
import BlockFlow.Schema.Basic
import BlockFlow.Schema.FlowGraph
import BlockFlow.Schema.Loading
import BlockFlow.Schema.Validation
import BlockFlow.Settings
import BlockFlow.Settings.EnvFile
import BlockFlow.Text.Blank
import BlockFlow.Text.Cased
import BlockFlow.Text.DecimalDigit
import BlockFlow.Text.Digits
import BlockFlow.Text.LowerCase
import BlockFlow.Text.Newlines
import BlockFlow.Text.Printable
import BlockFlow.Text.Replace
import BlockFlow.Traced
import BlockFlow.Uuid
import BlockFlow.Verification
import BlockFlow.Workspace
import BlockFlow.Proofs.Linking.Outcomes
import BlockFlow.Proofs.Linking.Traversal
import BlockFlow.Proofs.Linking.Refusals
import BlockFlow.Proofs.Linking.SharedIds
import BlockFlow.Proofs.Graph.RoundTrip
import BlockFlow.Proofs.Schema.Graphs
import BlockFlow.Proofs.CompiledGraphs
import BlockFlow.Proofs.Graph.Reading
import BlockFlow.Proofs.Canonical.Outlines
import BlockFlow.Proofs.Schema.Documents
import BlockFlow.Proofs.Lowering.Grammar
import BlockFlow.Proofs.Conditionals
import BlockFlow.Proofs.Json.Order
import BlockFlow.Proofs.Graph.Places
import BlockFlow.Proofs.Canonical.Strictness
import BlockFlow.Proofs.Canonicalization
import BlockFlow.Proofs.Canonical.Idempotence
import BlockFlow.Proofs.Canonical.Collections
import BlockFlow.Proofs.Graph.Format
import BlockFlow.Proofs.Graph.Malformed
import BlockFlow.Proofs.Linking.Problems
import BlockFlow.Proofs.Linking.Numbering
import BlockFlow.Proofs.Graph.Addresses
import BlockFlow.Proofs.Warnings
import BlockFlow.Proofs.Lowering.Warnings
import BlockFlow.Proofs.Canonical.Warnings
import BlockFlow.Proofs.Diagnostics
import BlockFlow.Proofs.Lowering.Sources
import BlockFlow.Proofs.Number.Layouts
import BlockFlow.Proofs.Log.Colors
import BlockFlow.Proofs.Cli.Outcomes
import BlockFlow.Proofs.Report
import BlockFlow.Proofs.Number.Rounding
import BlockFlow.Proofs.Number.Shortest
import BlockFlow.Proofs.Number.Integers
