import Wireframe.Agent.Outcome
import Wireframe.Agent.Planner
import Wireframe.Agent.Prompt
import Wireframe.Command.Arguments
import Wireframe.Command.Help
import Wireframe.Command.Manual
import Wireframe.Command.Model
import Wireframe.Command.Run
import Wireframe.Component
import Wireframe.Component.Catalogue
import Wireframe.Component.Props
import Wireframe.Component.Registry
import Wireframe.Decoding
import Wireframe.Diff
import Wireframe.Disk
import Wireframe.History.Call
import Wireframe.History.Memory
import Wireframe.History.Storage
import Wireframe.History.Store
import Wireframe.History.Table
import Wireframe.History.Version
import Wireframe.Input.Check
import Wireframe.Input.Sanitize
import Wireframe.Json.Diagnosis
import Wireframe.Json.Reader
import Wireframe.Json.Recovery
import Wireframe.Json.Writer
import Wireframe.Layout.Check
import Wireframe.Layout.Decode
import Wireframe.Layout.Graph
import Wireframe.Layout.Tree
import Wireframe.Lint.Check
import Wireframe.Lint.Finding
import Wireframe.Lint.Mask
import Wireframe.Lint.Pattern
import Wireframe.Main
import Wireframe.Markup.Literal
import Wireframe.Markup.Render
import Wireframe.Markup.Task
import Wireframe.Number.Double
import Wireframe.Number.Quantity
import Wireframe.Number.Shortest
import Wireframe.Plan.Basic
import Wireframe.Plan.Encode
import Wireframe.Plan.Explanation
import Wireframe.Plan.Schema
import Wireframe.Plan.Stored
import Wireframe.Proofs.Agent.Answers
import Wireframe.Proofs.Agent.Attempts
import Wireframe.Proofs.Agent.Wrapping
import Wireframe.Proofs.Command.Compile
import Wireframe.Proofs.Diff
import Wireframe.Proofs.Disk
import Wireframe.Proofs.History.Change
import Wireframe.Proofs.History.Interchange
import Wireframe.Proofs.History.Memory
import Wireframe.Proofs.History.Readback
import Wireframe.Proofs.History.Rows
import Wireframe.Proofs.History.Runs
import Wireframe.Proofs.History.Store
import Wireframe.Proofs.History.Versions
import Wireframe.Proofs.Input.Phrases
import Wireframe.Proofs.Input.Redaction
import Wireframe.Proofs.Json.Accepted
import Wireframe.Proofs.Json.Balance
import Wireframe.Proofs.Json.Commas
import Wireframe.Proofs.Json.Compact
import Wireframe.Proofs.Json.Depth
import Wireframe.Proofs.Json.Digits
import Wireframe.Proofs.Json.Enclosed
import Wireframe.Proofs.Json.Escape
import Wireframe.Proofs.Json.Fences
import Wireframe.Proofs.Json.Grammar
import Wireframe.Proofs.Json.Lexing
import Wireframe.Proofs.Json.Literal
import Wireframe.Proofs.Json.Numbers
import Wireframe.Proofs.Json.Proper
import Wireframe.Proofs.Json.Quoted
import Wireframe.Proofs.Json.Reading
import Wireframe.Proofs.Json.Recovery
import Wireframe.Proofs.Json.Sorted
import Wireframe.Proofs.Json.Unambiguous
import Wireframe.Proofs.Json.Units
import Wireframe.Proofs.Json.Words
import Wireframe.Proofs.Json.Wrapping
import Wireframe.Proofs.Layout.Accepted
import Wireframe.Proofs.Layout.Alike
import Wireframe.Proofs.Layout.Encoding
import Wireframe.Proofs.Layout.Findings
import Wireframe.Proofs.Layout.Height
import Wireframe.Proofs.Layout.Numbering
import Wireframe.Proofs.Layout.Places
import Wireframe.Proofs.Layout.Report
import Wireframe.Proofs.Layout.Treelike
import Wireframe.Proofs.Layout.Unfolding
import Wireframe.Proofs.Layout.View
import Wireframe.Proofs.Layout.Walk
import Wireframe.Proofs.Layout.Warnings
import Wireframe.Proofs.Lint.Constructs
import Wireframe.Proofs.Lint.Copy
import Wireframe.Proofs.Lint.Declarations
import Wireframe.Proofs.Lint.Dividing
import Wireframe.Proofs.Lint.Ending
import Wireframe.Proofs.Lint.Forbidden
import Wireframe.Proofs.Lint.Frame
import Wireframe.Proofs.Lint.Imports
import Wireframe.Proofs.Lint.Lines
import Wireframe.Proofs.Lint.MaskedCode
import Wireframe.Proofs.Lint.Masking
import Wireframe.Proofs.Lint.Messages
import Wireframe.Proofs.Lint.PlainCopy
import Wireframe.Proofs.Lint.Tags
import Wireframe.Proofs.Lint.Veiling
import Wireframe.Proofs.Lint.Whitelist
import Wireframe.Proofs.Lint.Wrapper
import Wireframe.Proofs.Markup.Attributes
import Wireframe.Proofs.Markup.Characters
import Wireframe.Proofs.Markup.Lines
import Wireframe.Proofs.Markup.Lossless
import Wireframe.Proofs.Markup.Recursion
import Wireframe.Proofs.Markup.TagLines
import Wireframe.Proofs.Markup.Views
import Wireframe.Proofs.Number.Rounding
import Wireframe.Proofs.Number.Spelling
import Wireframe.Proofs.Outcome
import Wireframe.Proofs.Plan.Grammar
import Wireframe.Proofs.Plan.Stored
import Wireframe.Proofs.Provider.Reading
import Wireframe.Proofs.Repeats
import Wireframe.Proofs.Request.Explaining
import Wireframe.Proofs.Request.Failure
import Wireframe.Proofs.Request.History
import Wireframe.Proofs.Request.Keeping
import Wireframe.Proofs.Request.Modifying
import Wireframe.Proofs.Request.Progress
import Wireframe.Proofs.Request.Refusal
import Wireframe.Proofs.Request.Stages
import Wireframe.Proofs.Request.Stored
import Wireframe.Proofs.Request.Untrusted
import Wireframe.Proofs.Source.Frame
import Wireframe.Proofs.Source.Limit
import Wireframe.Proofs.Source.LineEnds
import Wireframe.Proofs.Text.Blanks
import Wireframe.Proofs.Text.Cut
import Wireframe.Proofs.Text.Ending
import Wireframe.Proofs.Text.Letter
import Wireframe.Proofs.Text.Order
import Wireframe.Proofs.Text.Pieces
import Wireframe.Proofs.Text.Scanning
import Wireframe.Proofs.Text.Splitting
import Wireframe.Proofs.Text.Utf8
import Wireframe.Proofs.Value.Alike
import Wireframe.Proofs.Value.Faults
import Wireframe.Prop
import Wireframe.Provider.Backend
import Wireframe.Provider.Basic
import Wireframe.Provider.Fence
import Wireframe.Request.Basic
import Wireframe.Request.Serve
import Wireframe.Request.Team
import Wireframe.Settings.Basic
import Wireframe.Settings.LogLevel
import Wireframe.Settings.Variable
import Wireframe.Source
import Wireframe.Text.Blank
import Wireframe.Text.Case
import Wireframe.Text.Digit
import Wireframe.Text.Numeral
import Wireframe.Text.Order
import Wireframe.Text.Path
import Wireframe.Text.Printable
import Wireframe.Text.Quoted
import Wireframe.Text.Ranges
import Wireframe.Text.Scan
import Wireframe.Text.Search
import Wireframe.Text.Utf8
import Wireframe.Text.Word
import Wireframe.Value
import Wireframe.Value.Sorting
