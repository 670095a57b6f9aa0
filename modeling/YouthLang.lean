import YouthLang.Address
import YouthLang.Analysis
import YouthLang.Cause
import YouthLang.CommandLine
import YouthLang.CommandLine.Flags
import YouthLang.CommandLine.Request
import YouthLang.Diagnostic
import YouthLang.Duration
import YouthLang.Environment
import YouthLang.Files
import YouthLang.History
import YouthLang.History.Archive
import YouthLang.History.Column
import YouthLang.History.Dialect
import YouthLang.History.Entry
import YouthLang.History.Identifier
import YouthLang.History.Listing
import YouthLang.History.Location
import YouthLang.History.Pragma
import YouthLang.History.Saved
import YouthLang.History.Store
import YouthLang.Log
import YouthLang.Machine
import YouthLang.Main
import YouthLang.Moment
import YouthLang.Number.Binary
import YouthLang.Number.Decimal
import YouthLang.Number.Notation
import YouthLang.Number.Word
import YouthLang.Path
import YouthLang.Playground
import YouthLang.Playground.Server
import YouthLang.Playground.Target
import YouthLang.Prompt
import YouthLang.Proofs.Agreement
import YouthLang.Proofs.Alike
import YouthLang.Proofs.Annotations
import YouthLang.Proofs.Built
import YouthLang.Proofs.CallStack
import YouthLang.Proofs.Carets
import YouthLang.Proofs.Carried
import YouthLang.Proofs.Continuation
import YouthLang.Proofs.Conversation
import YouthLang.Proofs.Counting
import YouthLang.Proofs.Counting.Follow
import YouthLang.Proofs.Counting.Grammar
import YouthLang.Proofs.Counting.Language
import YouthLang.Proofs.Counting.Simulation
import YouthLang.Proofs.Counting.Twins
import YouthLang.Proofs.Counting.Walk
import YouthLang.Proofs.Discipline
import YouthLang.Proofs.Environments
import YouthLang.Proofs.Excerpts
import YouthLang.Proofs.Expectations
import YouthLang.Proofs.Flags
import YouthLang.Proofs.Foresight
import YouthLang.Proofs.Foresight.Rules
import YouthLang.Proofs.Formed
import YouthLang.Proofs.Frames
import YouthLang.Proofs.Giving
import YouthLang.Proofs.Grammar
import YouthLang.Proofs.Grammar.Complete
import YouthLang.Proofs.Grammar.Exact
import YouthLang.Proofs.Grammar.Sound
import YouthLang.Proofs.Homes
import YouthLang.Proofs.Isolation
import YouthLang.Proofs.Linked
import YouthLang.Proofs.Mentions
import YouthLang.Proofs.Moves
import YouthLang.Proofs.Nodes
import YouthLang.Proofs.Numbering
import YouthLang.Proofs.Numerals
import YouthLang.Proofs.Parallel
import YouthLang.Proofs.Progress
import YouthLang.Proofs.Receivers
import YouthLang.Proofs.Recovery
import YouthLang.Proofs.Recovery.Merged
import YouthLang.Proofs.Recovery.Portions
import YouthLang.Proofs.Recovery.Spots
import YouthLang.Proofs.Rejection
import YouthLang.Proofs.Renaming
import YouthLang.Proofs.Renaming.Run
import YouthLang.Proofs.Renaming.Step
import YouthLang.Proofs.Renaming.Walk
import YouthLang.Proofs.Rendered
import YouthLang.Proofs.Rendered.Forms
import YouthLang.Proofs.Rendered.Lexed
import YouthLang.Proofs.Rendered.Quoted
import YouthLang.Proofs.Rendered.Sheets
import YouthLang.Proofs.Renumbered
import YouthLang.Proofs.Rounding
import YouthLang.Proofs.Scanning
import YouthLang.Proofs.Scanning.Joined
import YouthLang.Proofs.Scanning.Bytes
import YouthLang.Proofs.Scanning.Layout
import YouthLang.Proofs.Scanning.Lines
import YouthLang.Proofs.Scanning.Numeral
import YouthLang.Proofs.Scanning.Partition
import YouthLang.Proofs.Scanning.Places
import YouthLang.Proofs.Scanning.Spacing
import YouthLang.Proofs.Scoping
import YouthLang.Proofs.Sessions
import YouthLang.Proofs.Settled
import YouthLang.Proofs.Simulation
import YouthLang.Proofs.Simulation.Run
import YouthLang.Proofs.Simulation.Step
import YouthLang.Proofs.Splitting
import YouthLang.Proofs.Store
import YouthLang.Proofs.Termination
import YouthLang.Proofs.Totals
import YouthLang.Proofs.Unbounded
import YouthLang.Proofs.Weights
import YouthLang.Proofs.Workers
import YouthLang.Proofs.Written
import YouthLang.Quantity
import YouthLang.Recorder
import YouthLang.Report
import YouthLang.Scope
import YouthLang.Script
import YouthLang.Session
import YouthLang.Settings
import YouthLang.Settings.Load
import YouthLang.Suite
import YouthLang.Text
import YouthLang.Text.Base64
import YouthLang.Text.Blank
import YouthLang.Text.Framed
import YouthLang.Text.Glyph
import YouthLang.Text.Json
import YouthLang.Text.Json.Datum
import YouthLang.Text.Percent
import YouthLang.Text.Printable
import YouthLang.Text.Quoted
import YouthLang.Text.Xml
import YouthLang.Token
import YouthLang.Token.Listing
import YouthLang.Token.Scan
import YouthLang.Token.Scanner
import YouthLang.Tree
import YouthLang.Tree.Parse
import YouthLang.Tree.References
import YouthLang.Tree.Render
import YouthLang.Value
import YouthLang.Yaml
import YouthLang.Yaml.Cursor
import YouthLang.Yaml.Failure
import YouthLang.Yaml.Meaning
import YouthLang.Yaml.Read
import YouthLang.Yaml.Source
import YouthLang.Yaml.Timestamp
import YouthLang.Yaml.Token
import YouthLang.Yaml.Token.Name
import YouthLang.Yaml.Token.Scalar
import YouthLang.Yaml.Token.Scan
import YouthLang.Yaml.Write
