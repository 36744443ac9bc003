import Scripting.Text.Printable
import Scripting.Text.Quoted
import Scripting.Decimal.Binary
import Scripting.Decimal.Shortest
import Scripting.Decimal.Style
import Scripting.Literal
import Scripting.Token
import Scripting.Token.Scan
import Scripting.Program
import Scripting.Program.Printer
import Scripting.Program.Parser
import Scripting.Resolution
import Scripting.Record
import Scripting.Fault
import Scripting.Value
import Scripting.Store
import Scripting.Store.Frames
import Scripting.Store.Members
import Scripting.Store.References
import Scripting.Store.Text
import Scripting.Console
import Scripting.Network
import Scripting.Journal
import Scripting.Machine
import Scripting.Builtin
import Scripting.Eval
import Scripting.Session
import Scripting.CommandLine
import Scripting.Main
import Scripting.Proofs.Eval.Plan
import Scripting.Proofs.Store.Growth
import Scripting.Proofs.Eval.Advance
import Scripting.Proofs.Eval.Calls
import Scripting.Proofs.Eval.Flow
import Scripting.Proofs.Eval.Faults
import Scripting.Proofs.Token.Spelling
import Scripting.Proofs.Program.Shape
import Scripting.Proofs.Program.Reading
import Scripting.Proofs.Resolution.Walk
import Scripting.Proofs.Resolution.Sites
import Scripting.Proofs.Store.Alignment
import Scripting.Proofs.Eval.Alignment
import Scripting.Proofs.Eval.Statements
import Scripting.Proofs.Eval.Runs
import Scripting.Proofs.Session.History
import Scripting.Proofs.Session.Agreement
import Scripting.Proofs.Session.Control
import Scripting.Proofs.Token.Joining
import Scripting.Proofs.Program.Renaming
import Scripting.Proofs.Program.RenamedReading
import Scripting.Proofs.Program.Seams
import Scripting.Proofs.Program.JoinedReading
import Scripting.Proofs.Resolution.Renaming
import Scripting.Proofs.Store.Renaming
import Scripting.Proofs.Eval.Mirroring
import Scripting.Proofs.Eval.Renaming
import Scripting.Proofs.Session.Mirroring
import Scripting.Proofs.Session.Rejection
import Scripting.Proofs.Session.Lines
import Scripting.Proofs.Session.Stepwise
import Scripting.Proofs.Resolution.Members
import Scripting.Proofs.Store.Receivers
import Scripting.Proofs.Eval.Steps
import Scripting.Proofs.Eval.Effects
import Scripting.Proofs.Eval.Belonging
import Scripting.Proofs.Eval.Receivers
import Scripting.Proofs.Eval.Trace
import Scripting.Proofs.Session.Receivers
import Scripting.Proofs.Token.Lexemes
import Scripting.Proofs.Program.Grammar
import Scripting.Proofs.Program.Derivation
import Scripting.Proofs.Program.ExpressionCompleteness
import Scripting.Proofs.Program.Completeness
import Scripting.Proofs.Program.Tokens
import Scripting.Proofs.Program.Rendering
import Scripting.Proofs.Eval.Relabeling
import Scripting.Proofs.Eval.WellFormed
import Scripting.Proofs.Session.WellFormed
import Scripting.Proofs.Resolution.Lexical
import Scripting.Proofs.Resolution.Marks
import Scripting.Proofs.Session.Nodes
import Scripting.Proofs.Store.History
import Scripting.Proofs.Eval.Distances
import Scripting.Proofs.Resolution.Unfinished
import Scripting.Proofs.Resolution.Mistakes
import Scripting.Proofs.Program.Progress
import Scripting.Proofs.Program.Recovery
import Scripting.Proofs.Token.LineBreaks
import Scripting.Proofs.Token.Respacing
import Scripting.Proofs.Store.Fields
import Scripting.Proofs.Eval.Actions
import Scripting.Proofs.Eval.Provenance
import Scripting.Proofs.Eval.Operators
import Scripting.Proofs.Eval.Initializers
import Scripting.Proofs.Eval.Events
import Scripting.Proofs.Program.Vocabulary
import Scripting.Proofs.Program.Constants
import Scripting.Proofs.Session.Arguments
import Scripting.Proofs.Session.Chains
import Scripting.Proofs.Session.Vocabulary
import Scripting.Proofs.Session.Construction
import Scripting.Proofs.Session.Properties
import Scripting.Proofs.Eval.Footprint
import Scripting.Proofs.Console.Lines
import Scripting.Proofs.Eval.Reading
import Scripting.Proofs.Session.Input
import Scripting.Proofs.Eval.Truncation
import Scripting.Proofs.Session.Truncation
import Scripting.Proofs.Eval.Outcomes
import Scripting.Proofs.Eval.Loops
import Scripting.Proofs.Resolution.References
import Scripting.Proofs.Program.Loops
import Scripting.Proofs.Store.Abandonment
import Scripting.Proofs.Eval.Holding
import Scripting.Proofs.Store.Lookup
import Scripting.Proofs.Eval.Accessors
import Scripting.Proofs.Eval.Classes
import Scripting.Proofs.Session.Lookup
import Scripting.Proofs.Decimal.Rounding
import Scripting.Proofs.Decimal.Shortest
import Scripting.Proofs.Decimal.Numerals
import Scripting.Proofs.Decimal.Doubles
import Scripting.Proofs.Decimal.Legibility
import Scripting.Proofs.Eval.Equality
import Scripting.Proofs.Token.Numbers
import Scripting.Proofs.Text.Quoted
import Scripting.Proofs.Program.Forms
import Scripting.Proofs.Program.Printing
import Scripting.Proofs.Token.Words
import Scripting.Proofs.Program.ReadingForms
import Scripting.Proofs.Program.Listings
import Scripting.Proofs.Text.Lines
import Scripting.Proofs.Network.Connections
import Scripting.Proofs.Eval.Exchanges
import Scripting.Proofs.Eval.Sockets
import Scripting.Proofs.Eval.Streams
import Scripting.Proofs.Session.Streams
