import Lispbox.CommandLine.Arguments
import Lispbox.CommandLine.FileTree
import Lispbox.CommandLine.Job
import Lispbox.CommandLine.Start
import Lispbox.CommandLine.Terminal
import Lispbox.CompileError
import Lispbox.Decimal.Binary
import Lispbox.Decimal.Reading
import Lispbox.Decimal.Shortest
import Lispbox.Decimal.Style
import Lispbox.Editor.Completion
import Lispbox.Editor.Diagnostic
import Lispbox.Event
import Lispbox.Exception.Basic
import Lispbox.Exception.Cause
import Lispbox.Exception.Explanation
import Lispbox.Form.Basic
import Lispbox.Form.Bytes
import Lispbox.Form.Flaw
import Lispbox.Form.Reader
import Lispbox.Form.Token
import Lispbox.Integer.Arithmetic
import Lispbox.Integer.Basic
import Lispbox.Integer.Power
import Lispbox.Json.Basic
import Lispbox.Json.Number
import Lispbox.Json.Printer
import Lispbox.Json.Reader
import Lispbox.Json.Shape
import Lispbox.Main
import Lispbox.Message.Basic
import Lispbox.Message.Publication
import Lispbox.Native.Call
import Lispbox.Native.Compute
import Lispbox.Native.Number
import Lispbox.Native.Sequence
import Lispbox.Native.Supply
import Lispbox.Program.Basic
import Lispbox.Program.Build
import Lispbox.Program.Imports
import Lispbox.Proofs.CommandLine.Errors
import Lispbox.Proofs.Dialogue.Every
import Lispbox.Proofs.Dialogue.Parallel
import Lispbox.Proofs.Editor.Reports
import Lispbox.Proofs.Exception.Excerpt
import Lispbox.Proofs.Exception.Folding
import Lispbox.Proofs.Exception.Location
import Lispbox.Proofs.Form.ByteWords
import Lispbox.Proofs.Form.Bytes
import Lispbox.Proofs.Form.Cursors
import Lispbox.Proofs.Form.Grammar
import Lispbox.Proofs.Form.Places
import Lispbox.Proofs.Form.Refusals
import Lispbox.Proofs.Form.Scanning
import Lispbox.Proofs.Form.Symbols
import Lispbox.Proofs.Form.Unclosed
import Lispbox.Proofs.Form.Word
import Lispbox.Proofs.Json.Members
import Lispbox.Proofs.Json.Texts
import Lispbox.Proofs.Json.Tokens
import Lispbox.Proofs.Machine.Frames
import Lispbox.Proofs.Machine.Renumbering
import Lispbox.Proofs.Machine.Stored
import Lispbox.Proofs.Native.Ceiling
import Lispbox.Proofs.Native.Indexing
import Lispbox.Proofs.Native.IntegerTexts
import Lispbox.Proofs.Native.Integers
import Lispbox.Proofs.Native.Ranges
import Lispbox.Proofs.Native.Renumbering
import Lispbox.Proofs.Native.Repetition
import Lispbox.Proofs.Native.Results
import Lispbox.Proofs.Origin.Basic
import Lispbox.Proofs.Origin.Coding
import Lispbox.Proofs.Origin.Explaining
import Lispbox.Proofs.Origin.Quoting
import Lispbox.Proofs.Origin.Telling
import Lispbox.Proofs.Origin.Traceback
import Lispbox.Proofs.Origin.Tracing
import Lispbox.Proofs.Program.Code
import Lispbox.Proofs.Program.Imports
import Lispbox.Proofs.Program.Positions
import Lispbox.Proofs.Program.Shapes
import Lispbox.Proofs.Run.Agreement
import Lispbox.Proofs.Run.Confinement
import Lispbox.Proofs.Run.Congruence
import Lispbox.Proofs.Run.Depth
import Lispbox.Proofs.Run.Discipline
import Lispbox.Proofs.Run.Emissions
import Lispbox.Proofs.Run.Evaluation
import Lispbox.Proofs.Run.FrameStack
import Lispbox.Proofs.Run.Fuel
import Lispbox.Proofs.Run.Imports
import Lispbox.Proofs.Run.Independence
import Lispbox.Proofs.Run.Isolation
import Lispbox.Proofs.Run.Jumps
import Lispbox.Proofs.Run.Limits
import Lispbox.Proofs.Run.Missing
import Lispbox.Proofs.Run.Renumbering
import Lispbox.Proofs.Run.Returns
import Lispbox.Proofs.Run.Scoping
import Lispbox.Proofs.Run.Signals
import Lispbox.Proofs.Run.Steps
import Lispbox.Proofs.Run.Termination
import Lispbox.Proofs.Run.Watch
import Lispbox.Proofs.Service.Agreement
import Lispbox.Proofs.Service.Chronicle
import Lispbox.Proofs.Service.Occurrences
import Lispbox.Proofs.Session.Acts
import Lispbox.Proofs.Session.Asking
import Lispbox.Proofs.Session.Breakpoints
import Lispbox.Proofs.Session.Closing
import Lispbox.Proofs.Session.Consulted
import Lispbox.Proofs.Session.Consulting
import Lispbox.Proofs.Session.Debugging
import Lispbox.Proofs.Session.Feeding
import Lispbox.Proofs.Session.History
import Lispbox.Proofs.Session.Interrupts
import Lispbox.Proofs.Session.Landing
import Lispbox.Proofs.Session.Moves
import Lispbox.Proofs.Session.Pauses
import Lispbox.Proofs.Session.Reading
import Lispbox.Proofs.Session.Rebasing
import Lispbox.Proofs.Session.Recorded
import Lispbox.Proofs.Session.Retries
import Lispbox.Proofs.Session.Snapshots
import Lispbox.Proofs.Session.Standard
import Lispbox.Proofs.Session.States
import Lispbox.Proofs.Session.Strays
import Lispbox.Proofs.Session.Transcript
import Lispbox.Proofs.Session.Transparency
import Lispbox.Proofs.Session.Unaided
import Lispbox.Proofs.Session.Works
import Lispbox.Proofs.Story.Basic
import Lispbox.Proofs.Story.Erasure
import Lispbox.Proofs.Story.Lines
import Lispbox.Proofs.Text.Lines
import Lispbox.Proofs.Text.Numerals
import Lispbox.Proofs.Text.Pieces
import Lispbox.Proofs.Text.Runs
import Lispbox.Proofs.Value.Documents
import Lispbox.Proofs.Value.Quoting
import Lispbox.Proofs.Value.Unambiguity
import Lispbox.Proofs.Wire.RoundTrip
import Lispbox.Run.Dialogue
import Lispbox.Run.Eval
import Lispbox.Run.Host
import Lispbox.Run.Interpreter
import Lispbox.Run.Machine
import Lispbox.Run.Recorder
import Lispbox.Run.Registry
import Lispbox.Service.Basic
import Lispbox.Service.Line
import Lispbox.Service.Request
import Lispbox.Session.Attempt
import Lispbox.Session.Basic
import Lispbox.Session.Config
import Lispbox.Session.Debugger
import Lispbox.Session.Request
import Lispbox.Session.Resolver
import Lispbox.Session.Run
import Lispbox.Session.Source
import Lispbox.Session.State
import Lispbox.Text.Blank
import Lispbox.Text.Digits
import Lispbox.Text.Lines
import Lispbox.Text.Pos
import Lispbox.Text.Split
import Lispbox.Value.Basic
import Lispbox.Value.Display
import Lispbox.Value.Native
import Lispbox.Wire.Editor
import Lispbox.Wire.Event
import Lispbox.Wire.Session
